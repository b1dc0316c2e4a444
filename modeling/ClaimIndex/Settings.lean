import ClaimIndex.Key
import ClaimIndex.Time

namespace ClaimIndex

structure Settings where
  name : String := "message-index"
  capacity : Nat := 30
  ttl : Span := .ofSeconds 86400
  namespaces : List Namespace := []

namespace Settings

def accepts (s : Settings) (n : Namespace) : Bool := s.namespaces.isEmpty || s.namespaces.contains n

def token (s : Settings) : String := s.name ++ ":rebuilt"

end Settings

end ClaimIndex
