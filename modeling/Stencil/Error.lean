import Stencil.Error.Cause
import Stencil.Source

/-!
# Failures and errors

A failure is a cause at a place, with the source that the place is in and the activations that it left
behind on its way out. An error is one failure, or all that is wrong with one template.
-/

namespace Stencil

/-- What can be in progress while a failure arises. -/
inductive Activation where
  | macroCall (name : String)
  | parse (name : String)
  | inclusion (name : String)
  | evaluation
  deriving Repr, DecidableEq

def Activation.description : Activation → String
  | .macroCall name => s!"macro #{name}"
  | .parse name => s!"#parse('{name}')"
  | .inclusion name => s!"#include('{name}')"
  | .evaluation => "#evaluate"

/-- A failure. Its trail lists the activations it left, innermost first, each with the position of its
call. -/
structure Failure where
  cause : Cause
  position : Option Position
  source : Option Source
  trail : List (Activation × Position)
  deriving Repr, DecidableEq

/-- An error: a failure, or several failures of one template. -/
inductive TemplateError where
  | single (failure : Failure)
  | compile (template : String) (failures : List Failure)
  deriving Repr, DecidableEq

namespace Failure

def of (cause : Cause) : Failure := ⟨cause, none, none, []⟩

def at_ (cause : Cause) (p : Position) : Failure := ⟨cause, some p, none, []⟩

def kind (f : Failure) : ErrorKind := f.cause.kind

def message (f : Failure) : String := f.cause.message

def token? (f : Failure) : Option String :=
  match f.cause with
  | .parse _ token => some token
  | _ => none

def inSource (f : Failure) (s : Source) : Failure :=
  { f with source := f.source <|> some s }

def leaving (f : Failure) (a : Activation) (p : Position) : Failure :=
  { f with trail := f.trail ++ [(a, p)] }

/-- The whole wording: what kind of failure it is, where it is and what happened. A failure of the
configuration has no place. -/
def display (f : Failure) : String :=
  let place :=
    match f.kind, f.position with
    | .config, _ => ""
    | _, some p => s!" at {p.display}"
    | _, none => ""
  let found :=
    match f.token? with
    | some token => " (found \x60" ++ token ++ "\x60)"
    | none => ""
  f.kind.title ++ place ++ ": " ++ f.message ++ found

/-- The bytes to point at, when the failure says in which source they are; at least one. -/
def label? (f : Failure) : Option (Nat × Nat) :=
  match f.source, f.position with
  | some _, some p => some (p.span.start, max 1 p.span.length)
  | _, _ => none

def help (f : Failure) : List String :=
  f.trail.map fun (a, p) => s!"in {a.description} at {p.display}"

end Failure

namespace TemplateError

def of (cause : Cause) : TemplateError := .single (.of cause)

def at_ (cause : Cause) (p : Position) : TemplateError := .single (.at_ cause p)

def first? : TemplateError → Option Failure
  | .single f => some f
  | .compile _ fs => fs.head?

def kind (e : TemplateError) : ErrorKind := (e.first?.map Failure.kind).getD .init

/-- The wording of an error; of several failures it is the whole wording of the first. -/
def message : TemplateError → String
  | .single f => f.message
  | .compile _ fs => (fs.head?.map Failure.display).getD ""

def position? (e : TemplateError) : Option Position := e.first?.bind Failure.position

def trail : TemplateError → List (Activation × Position)
  | .single f => f.trail
  | .compile .. => []

def help : TemplateError → List String
  | .single f => f.help
  | .compile .. => []

def display (e : TemplateError) : String :=
  match e with
  | .single f => f.display
  | .compile template fs =>
    s!"{fs.length} errors while compiling template '{template}'; first: " ++ e.message

/-- Names the source of an error that has none; several failures have theirs. -/
def inSource (e : TemplateError) (s : Source) : TemplateError :=
  match e with
  | .single f => .single (f.inSource s)
  | .compile .. => e

/-- Adds an activation that an error leaves; several failures are not changed by it. -/
def leaving (e : TemplateError) (a : Activation) (p : Position) : TemplateError :=
  match e with
  | .single f => .single (f.leaving a p)
  | .compile .. => e

@[simp] theorem kind_inSource (e : TemplateError) (s : Source) :
    (e.inSource s).kind = e.kind := by
  cases e <;> rfl

@[simp] theorem kind_leaving (e : TemplateError) (a : Activation) (p : Position) :
    (e.leaving a p).kind = e.kind := by
  cases e <;> rfl

@[simp] theorem message_inSource (e : TemplateError) (s : Source) :
    (e.inSource s).message = e.message := by
  cases e <;> rfl

@[simp] theorem message_leaving (e : TemplateError) (a : Activation) (p : Position) :
    (e.leaving a p).message = e.message := by
  cases e <;> rfl

@[simp] theorem position?_inSource (e : TemplateError) (s : Source) :
    (e.inSource s).position? = e.position? := by
  cases e <;> rfl

@[simp] theorem position?_leaving (e : TemplateError) (a : Activation) (p : Position) :
    (e.leaving a p).position? = e.position? := by
  cases e <;> rfl

end TemplateError

end Stencil
