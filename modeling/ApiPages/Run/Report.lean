import ApiPages.Text.Search

/-!
# Reports

What became of each input of a run, and what that makes of the run.

* `Report.failed` and `Report.succeeded` count inputs;
* `Report.verdict?` is the reason for which a run counts as failed, if there is one;
* `Report.render` is the report for readers.

A report does not depend on what its failures are; it is shown with a function that words them.
-/

namespace ApiPages

structure Outcome (ε : Type) where
  input : String
  /-- What produced the pages. -/
  source : String := ""
  pages : List String := []
  failure? : Option ε := none
  deriving DecidableEq, Repr

def Outcome.isFailure {ε : Type} (o : Outcome ε) : Bool := o.failure?.isSome

structure Report (ε : Type) where
  kind : String
  outcomes : List (Outcome ε) := []
  placeholder : Bool := false
  skipped : Bool := false
  dangling : Int := 0
  deriving DecidableEq, Repr

namespace Report

variable {ε : Type}

def add (r : Report ε) (o : Outcome ε) : Report ε :=
  { r with outcomes := r.outcomes ++ [o] }

def failed (r : Report ε) : Nat :=
  r.outcomes.countP Outcome.isFailure

def succeeded (r : Report ε) : Nat :=
  r.outcomes.length - r.failed

/-! ## Verdict -/

inductive Verdict where
  | allFailed (kind : String) (failed : Nat)
  | strict (kind : String) (failed total : Nat)
  deriving DecidableEq, Repr

def Verdict.message : Verdict → String
  | allFailed kind failed => kind ++ ": every input failed (" ++ toString failed ++ ")"
  | strict kind failed total =>
      kind ++ ": inputs failed in strict mode (" ++ toString failed ++ " of " ++
        toString total ++ ")"

/-- A run fails when all of its inputs fail, or any of them in strict mode. -/
def verdict? (r : Report ε) (strict : Bool) : Option Verdict :=
  if r.failed == 0 then none
  else if r.failed == r.outcomes.length then some (.allFailed r.kind r.failed)
  else if strict then some (.strict r.kind r.failed r.outcomes.length)
  else none

/-! ## Text -/

def line (word : ε → String) (o : Outcome ε) : String :=
  match o.failure? with
  | some e => "  FAIL " ++ o.input ++ ": " ++ word e ++ "\n"
  | none =>
      "  ok   " ++ o.input ++ " (" ++ o.source ++ ", " ++ toString o.pages.length ++ " pages)\n"

def summary (r : Report ε) : String :=
  r.kind ++ ": " ++ toString r.succeeded ++ " succeeded, " ++ toString r.failed ++ " failed" ++
    (if r.placeholder then ", placeholder written" else "") ++
    (if r.dangling > 0 then ", " ++ toString r.dangling ++ " dangling references" else "") ++ "\n"

def render (word : ε → String) (r : Report ε) : String :=
  if r.skipped then r.kind ++ ": skipped (toolchain unavailable in CI)\n"
  else Text.joined "" (r.outcomes.map (line word)) ++ r.summary

end Report
end ApiPages
