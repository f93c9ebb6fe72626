/-!
A token that any party may set to end a run early, and that only its owner resets.
-/

namespace Descent

structure Token where
  isCancelled : Bool
  deriving DecidableEq

namespace Token

def fresh : Token := ⟨false⟩

def cancel (_token : Token) : Token := ⟨true⟩

def reset (_token : Token) : Token := ⟨false⟩

end Token

end Descent
