import Think.Scope
import Think.Text.Excerpt

/-! # Diagnostics

A diagnostic is an error that the language itself reports, with the part of the text it is about.
It can be shown if both ends of that part are known and, for an error at run time, if every
activation on the way out knows where it was entered.
-/

namespace Think

inductive Diagnostic.Kind
  | illegalChar | expectedChar | invalidSyntax | keyboardInterrupt | runtime
  deriving DecidableEq, Repr

structure Diagnostic where
  kind : Diagnostic.Kind
  details : String
  start : Option Position
  stop : Option Position
  /-- The activation in which an error at run time arose. -/
  context : Option Context

namespace Diagnostic

def Kind.title : Kind → String
  | illegalChar => "Illegal Character"
  | expectedChar => "Expected Character"
  | invalidSyntax => "Invalid Syntax"
  | keyboardInterrupt => "Keyboard Interrupt"
  | runtime => "Runtime Error"

/-- An error in the text itself, found before anything is evaluated. -/
def static (kind : Kind) (span : Span) (details : String) : Diagnostic :=
  ⟨kind, details, some span.start, some span.stop, none⟩

/-- The activations from the outermost in, each with the place reached in it. -/
def traceback? : Option Context → Option Position → Option String
  | none, _ => some ""
  | some _, none => none
  | some ⟨name, parent, entry, _, _⟩, some place => do
    let outer ← traceback? parent entry
    return outer ++ s!"  File {place.source.name}, line {place.ln + 1}, in {name}\n"

/-- The text shown for the error, if it can be shown. -/
def message? (d : Diagnostic) : Option String :=
  match d.start, d.stop with
  | some start, some stop => do
    let excerpt := Excerpt.render start.source.text start stop
    match d.kind with
    | .runtime =>
      let trace ← traceback? d.context d.start
      return "Traceback (most recent call last):\n" ++ trace ++
        s!"{d.kind.title}: {d.details}\n\n" ++ excerpt
    | _ =>
      return s!"{d.kind.title}: {d.details}\nFile {start.source.name}, line {start.ln + 1}\n\n" ++
        excerpt
  | _, _ => none

end Diagnostic

end Think
