import Mathlib.Algebra.GroupWithZero.Nat
import Mathlib.Algebra.Ring.Int.Defs
import Mathlib.Data.Int.Notation
import Mathlib.Tactic.Common

/-! Log commands are plain text: `fmt::format` writes them and `std::sscanf`
reads them back. A text is the list of its characters. -/

namespace Raft2PC

abbrev Text := List Char

/-- `fmt::format("{}", n)` for an `int`. -/
def fmtInt : ℤ → Text
  | .ofNat n => Nat.toDigits 10 n
  | .negSucc n => '-' :: Nat.toDigits 10 (n + 1)

/-- `fmt::format("{} pays {} ${}", senderId, receiverId, amount)`. -/
def fmtPays (senderId receiverId amount : ℤ) : Text :=
  fmtInt senderId ++ " pays ".toList ++ fmtInt receiverId ++ " $".toList ++ fmtInt amount

/-- What a `scanf` format is made of: `%d`, a run of white space, a literal character. -/
inductive Directive where
  | int
  | space
  | lit (c : Char)
deriving DecidableEq, Repr

def isSpace (c : Char) : Bool :=
  c = ' ' || c = '\t' || c = '\n' || c = '\r' || c.toNat = 11 || c.toNat = 12

def skipSpace (s : Text) : Text := s.dropWhile isSpace

def directives : Text → List Directive
  | [] => []
  | '%' :: 'd' :: rest => .int :: directives rest
  | c :: rest => (if isSpace c then .space else .lit c) :: directives rest

def natOfDigits (ds : Text) : ℕ := ds.foldl (fun n d => 10 * n + (d.toNat - '0'.toNat)) 0

/-- Unsigned part of `%d`: at least one digit. -/
def scanNat (s : Text) : Option (ℕ × Text) :=
  match s.span Char.isDigit with
  | ([], _) => none
  | (ds, rest) => some (natOfDigits ds, rest)

/-- `%d` skips leading white space and takes an optional sign. -/
def scanInt (s : Text) : Option (ℤ × Text) :=
  match skipSpace s with
  | '-' :: rest => (scanNat rest).map fun (n, rest) => (-(n : ℤ), rest)
  | '+' :: rest => (scanNat rest).map fun (n, rest) => ((n : ℤ), rest)
  | rest => (scanNat rest).map fun (n, rest) => ((n : ℤ), rest)

/-- The numbers stored before the first directive that fails. -/
def scan : List Directive → Text → List ℤ
  | [], _ => []
  | .int :: ds, s =>
    match scanInt s with
    | some (n, rest) => n :: scan ds rest
    | none => []
  | .space :: ds, s => scan ds (skipSpace s)
  | .lit _ :: _, [] => []
  | .lit c :: ds, c' :: rest => if c = c' then scan ds rest else []

/-- The three locals `sender_id, receiver_id, amount` that `sscanf` fills. -/
structure Transfer where
  senderId : ℤ
  receiverId : ℤ
  amount : ℤ
deriving DecidableEq, Repr, Inhabited

/-- `std::sscanf(s, format, &sender_id, &receiver_id, &amount)`: locals the scan does
not reach keep their previous, indeterminate, contents. -/
def sscanf (locals : Transfer) (format : Text) (s : Text) : Transfer :=
  match scan (directives format) s with
  | [] => locals
  | [a] => { locals with senderId := a }
  | [a, b] => { locals with senderId := a, receiverId := b }
  | a :: b :: c :: _ => ⟨a, b, c⟩

def paysFormat : Text := "%d pays %d $%d".toList
def prepareFormat : Text := "[PREPARE] %d pays %d $%d".toList

example : fmtPays 100 (-7) 3 = "100 pays -7 $3".toList := by decide

example : sscanf default paysFormat (fmtPays 100 (-7) 3) = ⟨100, -7, 3⟩ := by decide

end Raft2PC
