import ClaimIndex.Number.Decimal
import ClaimIndex.Text.Lowercase
import Std.Data.ExtTreeMap
import Std.Data.ExtTreeSet

/-! Index keys.  A key is `namespace:folded`, where the folded form of a raw key has its first
character in lower case and underscores for spaces, so the spellings of one page title share a
key.  `Key.page?` reads the page back. -/

namespace ClaimIndex

abbrev GroupId := String

abbrev Namespace := Int32

namespace Namespace

def text (n : Namespace) : List Char :=
  if n.toInt < 0 then '-' :: Decimal.digits n.toInt.natAbs else Decimal.digits n.toInt.natAbs

def ofInt? (n : Int) : Option Namespace :=
  if Int32.minValue.toInt ≤ n ∧ n ≤ Int32.maxValue.toInt then some (Int32.ofInt n) else none

def read? (s : List Char) : Option Namespace := Decimal.integer? s >>= ofInt?

end Namespace

structure Page where
  space : Namespace
  title : String
  deriving DecidableEq

def Page.text (p : Page) : String := .ofList (p.space.text ++ ':' :: p.title.toList)

structure Key where
  text : String
  deriving DecidableEq

namespace Key

instance : Ord Key := ⟨compareOn text⟩

instance : Std.TransOrd Key := inferInstanceAs (Std.TransCmp (compareOn text))

instance : Std.LawfulEqOrd Key where
  compare_self {a} := (Std.ReflOrd.compare_self : compare a.text a.text = .eq)
  eq_of_compare {a b} h := by
    cases a; cases b
    exact congrArg Key.mk (Std.LawfulEqOrd.eq_of_compare h)

def underscore (c : Char) : Char := if c = ' ' then '_' else c

def fold : List Char → List Char
  | [] => []
  | c :: cs => (Lowercase.ofChar c ++ cs).map underscore

def ofRaw (n : Namespace) (raw : String) : Key :=
  ⟨.ofList (n.text ++ ':' :: fold raw.toList)⟩

def page? (k : Key) : Option Page :=
  match k.text.toList.span (· ≠ ':') with
  | (_, []) => none
  | (front, _ :: rest) => (Namespace.read? front).map (⟨·, .ofList rest⟩)

end Key

end ClaimIndex
