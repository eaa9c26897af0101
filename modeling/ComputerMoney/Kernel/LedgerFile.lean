/-
# Kernel.LedgerFile -- the ledger on disk

One signed JSON record a line.  `recordJson` is the text the derived serializer writes
for a record, field for field; reading a text back is the library's, and a parameter
here.  `openInner` reads the file line by line: bytes that are no UTF-8, a line that is
no record, or a record whose signature does not verify, and the whole file is refused.
`append` writes the line and syncs; what a failed or interrupted write leaves is some
prefix of the line's bytes.
-/
import Mathlib.Data.List.TakeWhile
import ComputerMoney.Kernel.Ledger
import ComputerMoney.Theory.Json
import ComputerMoney.Theory.Lines
import ComputerMoney.Theory.Text

namespace ComputerMoney.Kernel

set_option autoImplicit false

open Theory

/-! ## The text of a record -/

def Status.name : Status → String
  | .pending => "pending"
  | .soft => "soft"
  | .final => "final"
  | .failed => "failed"

/-- The fields of an entry, in the order they are declared, after its kind. -/
def Entry.fields : Entry → List (String × Json.Scalar)
  | .addressIssued seq index =>
      [("kind", .string "address_issued"), ("seq", .number seq), ("index", .number index)]
  | .sent seq txid sats payee status sentAt =>
      [("kind", .string "sent"), ("seq", .number seq), ("txid", .string txid),
        ("sats", .number sats), ("to", .string payee), ("status", .string status.name),
        ("at", .number sentAt)]
  | .received seq txid sats index status =>
      [("kind", .string "received"), ("seq", .number seq), ("txid", .string txid),
        ("sats", .number sats), ("index", .number index), ("status", .string status.name)]
  | .statusUpdate seq txid status =>
      [("kind", .string "status_update"), ("seq", .number seq), ("txid", .string txid),
        ("status", .string status.name)]
  | .spReceived seq txid vout sats tweak status =>
      [("kind", .string "sp_received"), ("seq", .number seq), ("txid", .string txid),
        ("vout", .number vout), ("sats", .number sats), ("tweak", .string tweak),
        ("status", .string status.name)]
  | .spSpent seq txid vout =>
      [("kind", .string "sp_spent"), ("seq", .number seq), ("txid", .string txid),
        ("vout", .number vout)]

def Entry.json (entry : Entry) : List Char :=
  Json.object (entry.fields.map fun f => Json.field f.1 f.2.text)

/-- A line's content: the entry and its detached signature. -/
structure Record where
  entry : Entry
  sig : String
  deriving DecidableEq, Repr

def recordJson (record : Record) : List Char :=
  Json.object [Json.field "entry" record.entry.json, Json.field "sig" (Json.string record.sig.toList)]

example : recordJson ⟨.addressIssued 0 3, ""⟩ =
    "\x7b\"entry\":\x7b\"kind\":\"address_issued\",\"seq\":0,\"index\":3\x7d,\"sig\":\"\"\x7d".toList := by
  decide

/-! ## Opening and appending -/

/-- What the file's owner brings: the reader of a line, and the identity that signs and
verifies, if the ledger has one. -/
structure Keeper where
  /-- `serde_json::from_str::<Record>`. -/
  fromStr : List Char → Except String Record
  sign : Option (Entry → String)
  verify : Entry → String → Bool

/-- The record `append` writes for an entry. -/
def Keeper.recordOf (keeper : Keeper) (entry : Entry) : Record :=
  ⟨entry, match keeper.sign with
    | some sign => sign entry
    | none => ""⟩

/-- One line: `none` for a blank one. -/
def Keeper.readLine (keeper : Keeper) (line : List UInt8) : Except String (Option Entry) :=
  match Lines.text? line with
  | none => .error "stream did not contain valid UTF-8"
  | some text =>
      if Text.trim text = [] then .ok none
      else
        match keeper.fromStr text with
        | .error e => .error e
        | .ok record =>
            if keeper.sign.isSome && !keeper.verify record.entry record.sig then
              .error ("ledger signature check failed at seq " ++ toString record.entry.seq)
            else .ok (some record.entry)

def Keeper.readLines (keeper : Keeper) : List (List UInt8) → Except String (List Entry)
  | [] => .ok []
  | line :: lines => do
      let entry ← keeper.readLine line
      let entries ← keeper.readLines lines
      return entry.toList ++ entries

/-- `Ledger::open_inner` on the bytes of the file. -/
def Keeper.openInner (keeper : Keeper) (file : List UInt8) : Except String (List Entry) :=
  keeper.readLines (Lines.lines file)

/-- The text of an entry's line, without its newline. -/
def Keeper.lineText (keeper : Keeper) (entry : Entry) : List UInt8 :=
  Lines.bytes (recordJson (keeper.recordOf entry))

/-- The bytes `append` writes. -/
def Keeper.line (keeper : Keeper) (entry : Entry) : List UInt8 :=
  keeper.lineText entry ++ [Lines.newline]

/-! ## The shape of a line -/

theorem oneLine_recordJson (record : Record) : Json.OneLine (recordJson record) := by
  refine Json.oneLine_object fun f member => ?_
  simp only [List.mem_cons, List.not_mem_nil, or_false] at member
  rcases member with rfl | rfl
  · refine Json.oneLine_field _ (Json.oneLine_object fun f member => ?_)
    obtain ⟨⟨name, value⟩, -, rfl⟩ := List.mem_map.1 member
    exact Json.oneLine_field name (Json.oneLine_scalar value)
  · exact Json.oneLine_field _ (Json.oneLine_string _)

namespace Keeper

variable (keeper : Keeper) (entry : Entry)

theorem newline_notMem_lineText : Lines.newline ∉ keeper.lineText entry :=
  Lines.newline_notMem_bytes (oneLine_recordJson _)

/-- The text ends in its closing brace. -/
theorem getLast?_lineText : (keeper.lineText entry).getLast? = some 125 := by
  unfold lineText recordJson Json.object Lines.bytes
  have brace : String.utf8EncodeChar '}' = [125] := by decide
  simp [List.flatMap_cons, List.flatMap_append, brace]

theorem lineText_ne_nil : keeper.lineText entry ≠ [] := by
  intro none
  have last := keeper.getLast?_lineText entry
  rw [none] at last
  cases last

/-- A text that opens with a brace is not blank. -/
theorem trim_recordJson (record : Record) : Text.trim (recordJson record) ≠ [] := by
  have opens : recordJson record = '{' :: (recordJson record).tail := rfl
  have solid : Text.isWhitespace '{' = false := by decide
  rw [opens, Text.trim, List.dropWhile_cons_of_neg (by simp [solid])]
  intro blank
  have all : ∀ c ∈ ('{' :: (recordJson record).tail).reverse, Text.isWhitespace c = true :=
    List.dropWhile_eq_nil_iff.1 (List.reverse_eq_nil_iff.1 blank)
  have brace := all '{' (List.mem_reverse.2 (List.mem_cons_self ..))
  rw [solid] at brace
  cases brace

end Keeper

end ComputerMoney.Kernel
