import LoxLang.Parsing.Program
import LoxLang.RuntimeError
import LoxLang.Scoping.Resolve

/-!
# Problems

Whatever can be wrong with a source: with its text, its grammar, its scopes, or when it runs.
-/

namespace LoxLang

inductive Problem
  | lexical (e : LexicalError)
  | grammar (e : SyntaxError)
  | scope (e : ScopeError)
  | runtime (e : RuntimeError)
  deriving DecidableEq, Repr

namespace Problem

def message : Problem → String
  | lexical e => e.message
  | grammar e => e.message
  | scope e => e.message
  | runtime e => e.message

/-- Whether the problem shows before anything runs. -/
def isStatic : Problem → Bool
  | runtime _ => false
  | _ => true

end Problem

end LoxLang
