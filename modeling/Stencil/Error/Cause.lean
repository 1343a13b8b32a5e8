/-!
# What can go wrong

Every failure has a cause, and a cause has a kind and a wording. The kinds are those that callers tell
apart.
-/

namespace Stencil

/-- The kinds of failures. -/
inductive ErrorKind where
  /-- The text is not a template. -/
  | parse
  /-- The template breaks a rule that its form alone does not show. -/
  | init
  /-- Rendering fails. -/
  | render
  /-- A reference leads to nothing, where references are strict. -/
  | undefinedReference
  /-- A member cannot be found or fails. -/
  | dispatch
  /-- Calls are nested too deep. -/
  | recursionLimit
  /-- A whole number is divided by zero. -/
  | divisionByZero
  /-- No loader has the resource. -/
  | resourceNotFound
  /-- Reading or writing fails. -/
  | io
  /-- A setting cannot be honoured. -/
  | config
  deriving Repr, DecidableEq, Inhabited

def ErrorKind.name : ErrorKind → String
  | .parse => "parse"
  | .init => "init"
  | .render => "render"
  | .undefinedReference => "undefined_reference"
  | .dispatch => "dispatch"
  | .recursionLimit => "recursion_limit"
  | .divisionByZero => "division_by_zero"
  | .resourceNotFound => "resource_not_found"
  | .io => "io"
  | .config => "config"

/-- The words that open the display of a failure of this kind. -/
def ErrorKind.title : ErrorKind → String
  | .parse => "Parse error"
  | .init => "Init error"
  | .render => "Render error"
  | .undefinedReference => "Undefined reference"
  | .dispatch => "Dispatch error"
  | .recursionLimit => "Recursion limit exceeded"
  | .divisionByZero => "Division by zero"
  | .resourceNotFound => "Resource not found"
  | .io => "I/O error"
  | .config => "Configuration error"

/-- Why a text is not a template. -/
inductive ParseFault where
  | unclosedBlock
  | strayBlockEnd
  /-- None of the named things stands where one has to. -/
  | expected (things : List String)
  | unterminatedComment
  | unterminatedRaw
  | integerOutOfRange
  /-- A part that every construct of its kind has is not there. -/
  | missing (part : String)
  deriving Repr, DecidableEq

/-- The rules that the form of a template does not show. -/
inductive InitFault where
  | flowInString
  | assignToCall (method literal : String)
  | nestedMacro (name : String)
  | repeatedParameter (name parameter : String)
  | bareWord (word name : String)
  | repeatedArgument (argument name : String)
  | unknownScope (label : String)
  deriving Repr, DecidableEq

/-- Why rendering fails at a node or an expression. -/
inductive RenderFault where
  | bareWord (word : String)
  | rangeBounds (lower upper : String)
  | rangeTooLong (lower upper : Int) (limit : Nat)
  | nullOperand (operator : String)
  | incomparable (left right operator : String)
  | inapplicable (left right operator : String)
  | overflow (left right : Int) (operator : String)
  | negationOverflow (operand : Int)
  | cannotNegate (type : String)
  | indexOutOfBounds (index type : String)
  | listIndexOutOfBounds (index : Int) (size : Nat)
  | assignToCall (method : String)
  | notIterable (type : String)
  | nullResource (directive : String)
  | undefinedMacro (name : String)
  | unknownArgument (name argument : String)
  | tooManyArguments (name : String) (declared passed : Nat)
  deriving Repr, DecidableEq

/-- Where a strict reference leads to nothing. -/
inductive UndefinedFault where
  | variable (name : String)
  /-- A null has no `access`. -/
  | receiver (access literal : String)
  | target (literal : String)
  deriving Repr, DecidableEq

/-- Why a setting cannot be honoured. -/
inductive SettingFault where
  | contextKind (found : String)
  | notReadable
  | encoding (name : String)
  /-- The named limit is zero. -/
  | zeroLimit (name : String)
  | file (path reason : String)
  | contextFile (path : String)
  deriving Repr, DecidableEq

/-- Why reading or writing fails. -/
inductive IoFault where
  | formatting
  | writing (reason : String)
  | notUtf8 (path : String)
  | reading (path reason : String)
  /-- A loader of the host's own gives this reason. -/
  | loader (reason : String)
  deriving Repr, DecidableEq

/-- The cause of a failure. -/
inductive Cause where
  /-- The text fails to parse at `token`. -/
  | parse (fault : ParseFault) (token : String)
  | init (fault : InitFault)
  | render (fault : RenderFault)
  | undefined (fault : UndefinedFault)
  /-- No member answers, or several do. -/
  | noMember (message : String)
  /-- The member fails with a reason of its own. -/
  | memberFailed (type member reason : String)
  | macroDepth (name : String) (limit : Nat) (calls : List String)
  | parseDepth (name : String) (limit : Nat)
  | divisionByZero (dividend : Int) (operator : String)
  | noLoader (name : String)
  | nameOutsideRoots (name : String)
  | io (fault : IoFault)
  | config (fault : SettingFault)
  deriving Repr, DecidableEq

def Cause.kind : Cause → ErrorKind
  | .parse .. => .parse
  | .init _ => .init
  | .render _ => .render
  | .undefined _ => .undefinedReference
  | .noMember _ => .dispatch
  | .memberFailed .. => .dispatch
  | .macroDepth .. => .recursionLimit
  | .parseDepth .. => .recursionLimit
  | .divisionByZero .. => .divisionByZero
  | .noLoader _ => .resourceNotFound
  | .nameOutsideRoots _ => .resourceNotFound
  | .io _ => .io
  | .config _ => .config

def ParseFault.message : ParseFault → String
  | .unclosedBlock => "missing #end for an open block directive"
  | .strayBlockEnd => "#end, #else or #elseif without an open block directive"
  | .expected [] => "syntax error"
  | .expected things => "expected " ++ " or ".intercalate things
  | .unterminatedComment => "unterminated block comment: missing '*#'"
  | .unterminatedRaw => "unterminated raw block: missing ']]#'"
  | .integerOutOfRange => "integer literal out of range"
  | .missing part => s!"malformed template: missing {part}"

def InitFault.message : InitFault → String
  | .flowInString => "#stop and #break cannot be used inside a string literal"
  | .assignToCall method literal =>
    s!"cannot assign to the method call '{method}(...)' in '{literal}'"
  | .nestedMacro name => s!"macro #{name} is defined inside another macro"
  | .repeatedParameter name parameter => s!"macro #{name} declares parameter ${parameter} twice"
  | .bareWord word name =>
    s!"argument '{word}' of #{name} looks like an undeclared variable; write ${word} or quote it"
  | .repeatedArgument argument name => s!"argument '{argument}' passed twice to #{name}"
  | .unknownScope label =>
    s!"#break(${label}) names no enclosing scope; use $foreach, $macro or $template"

def RenderFault.message : RenderFault → String
  | .bareWord word => s!"'{word}' is not a value; write ${word} or quote it"
  | .rangeBounds lower upper => s!"range bounds must be integers, found {lower} and {upper}"
  | .rangeTooLong lower upper limit =>
    s!"range [{lower}..{upper}] exceeds the limit of {limit} elements"
  | .nullOperand operator => s!"null operand of '{operator}'"
  | .incomparable left right operator => s!"cannot compare {left} with {right} using '{operator}'"
  | .inapplicable left right operator => s!"cannot apply '{operator}' to {left} and {right}"
  | .overflow left right operator => s!"integer overflow in {left} {operator} {right}"
  | .negationOverflow operand => s!"integer overflow in -({operand})"
  | .cannotNegate type => s!"cannot negate {type}"
  | .indexOutOfBounds index type => s!"index {index} is out of bounds for {type}"
  | .listIndexOutOfBounds index size => s!"index {index} is out of bounds for a list of size {size}"
  | .assignToCall method => s!"cannot assign to the method call '{method}(...)'"
  | .notIterable type => s!"cannot iterate over a {type}"
  | .nullResource directive => s!"{directive} argument evaluates to null"
  | .undefinedMacro name => s!"no macro named #{name} is defined"
  | .unknownArgument name argument => s!"macro #{name} has no parameter named '{argument}'"
  | .tooManyArguments name declared passed =>
    s!"macro #{name} takes {declared} argument(s) but {passed} were passed"

def UndefinedFault.message : UndefinedFault → String
  | .variable name => s!"variable ${name} is not defined"
  | .receiver access literal => s!"cannot access {access} on a null value in '{literal}'"
  | .target literal => s!"cannot assign '{literal}': its receiver is null"

def SettingFault.message : SettingFault → String
  | .contextKind found => s!"context data must be a JSON object, found {found}"
  | .notReadable => "invalid configuration"
  | .encoding name => s!"unsupported input encoding '{name}': only UTF-8 is accepted"
  | .zeroLimit name => s!"{name} must be at least 1"
  | .file path reason => s!"cannot read {path}: {reason}"
  | .contextFile path => s!"invalid JSON in {path}"

def IoFault.message : IoFault → String
  | .formatting => "formatting into the output sink failed"
  | .writing reason => s!"writing rendered output failed: {reason}"
  | .notUtf8 path => s!"{path} is not valid UTF-8"
  | .reading path reason => s!"cannot read {path}: {reason}"
  | .loader reason => reason

def Cause.message : Cause → String
  | .parse fault _ => fault.message
  | .init fault => fault.message
  | .render fault => fault.message
  | .undefined fault => fault.message
  | .noMember message => message
  | .memberFailed type member reason => s!"{type}.{member} failed: {reason}"
  | .macroDepth name limit calls =>
    s!"macro #{name} exceeds the maximum call depth of {limit} (stack: " ++
      " > ".intercalate calls ++ ")"
  | .parseDepth name limit => s!"#parse('{name}') exceeds the maximum nesting depth of {limit}"
  | .divisionByZero dividend operator => s!"{dividend} {operator} 0"
  | .noLoader name => s!"no loader provides '{name}'"
  | .nameOutsideRoots name =>
    s!"template name '{name}' must be a relative path inside the template roots"
  | .io fault => fault.message
  | .config fault => fault.message

end Stencil
