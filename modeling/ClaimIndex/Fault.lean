namespace ClaimIndex

inductive Fault
  | lockUnavailable (index : String) (waited : Nat)
  | lock (message : String)
  | storage (message : String)
  | invalidSnapshot (message : String)
  | groupKeys (group : String) (message : String)
  | unknownGroup (group : String)
  | queueUnavailable (message : String)
  | io (message : String)
  deriving DecidableEq

namespace Fault

def emptyClaimants : Fault := invalidSnapshot "key has an empty claimant list"

def message : Fault → String
  | lockUnavailable index waited => s!"unable to acquire lock for index '{index}' after {waited}ms"
  | lock m => "lock backend failure: " ++ m
  | storage m => "storage failure: " ++ m
  | invalidSnapshot m => "invalid snapshot: " ++ m
  | groupKeys group m => s!"group '{group}' failed to enumerate keys: {m}"
  | unknownGroup group => s!"group '{group}' is not registered"
  | queueUnavailable m => "task queue unavailable: " ++ m
  | io m => m

def isRetriable : Fault → Bool
  | lockUnavailable .. | queueUnavailable _ => true
  | _ => false

end Fault

end ClaimIndex
