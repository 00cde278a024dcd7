import ExprLang.Error.Runtime
import ExprLang.Error.Syntax

/-!
# Errors of a line

A line of the language fails either before it runs or while it runs.
-/

namespace ExprLang

/-- Why a source did not give a value. -/
inductive Failure where
  | syntactic (error : SyntaxError)
  | runtime (error : RuntimeError)
  deriving DecidableEq, Repr

/-- The panic that a failure is, if it is one. -/
def Failure.panic? : Failure → Option Panic
  | .runtime (.panic cause) => some cause
  | _ => none

/-- The failure as it is reported to a user. -/
def Failure.report : Failure → String
  | .syntactic e => e.report
  | .runtime e => e.report

end ExprLang
