import Mathlib.Algebra.Order.Ring.Int
import Mathlib.Algebra.Order.Ring.Nat
import Mathlib.Data.List.Infix
import Mathlib.Data.List.Sort
import Mathlib.Data.String.Basic

/-!
# Texts and JSON values

A WebSocket text frame is a list of characters, so that substring tests and slices are list
operations. `Json` is the parse tree of a frame: an object keeps its members in the order of the
text, repeated keys included, because the readers differ on them. `serde_json::Value` and
`jsonDecode` keep the last member of a key (`Json.get?`), while a derived `Deserialize` rejects a
repeated field (`structField`). `Json.encode` is the compact text that `serde_json::to_string` and
`jsonEncode` write.

Parsing itself belongs to the JSON crates and is a parameter of the models (`SerdeJson`).
-/

set_option autoImplicit false

namespace Ktty.Wire

/-- The characters of a text frame. -/
abbrev Text := List Char

/-- A byte string. -/
abbrev Bytes := List UInt8

/-- `t.contains(pat)`. -/
def containsStr (t : Text) (pat : String) : Bool := decide (pat.toList <:+: t)

/-- A text without the character `c` contains no pattern with `c`. -/
theorem containsStr_eq_false_of_notMem {t : Text} {pat : String} {c : Char}
    (hpat : c ∈ pat.toList) (ht : c ∉ t) : containsStr t pat = false := by
  rw [containsStr, decide_eq_false_iff_not]
  intro hin
  exact ht (hin.subset hpat)

/-! ## Slices for log lines -/

/-- Byte offset `k` lies on a character boundary of `t`. -/
def isCharBoundary : Text → Nat → Bool
  | _, 0 => true
  | [], _ + 1 => false
  | c :: cs, k + 1 => decide (c.utf8Size ≤ k + 1) && isCharBoundary cs (k + 1 - c.utf8Size)

/-- The length in bytes, `str::len`. -/
def byteLen (t : Text) : Nat := (t.map Char.utf8Size).sum

/-- `&t[..t.len().min(limit)]` does not panic. -/
def previewOk (limit : Nat) (t : Text) : Bool := isCharBoundary t (min (byteLen t) limit)

/-! ## JSON -/

/-- A JSON value as parsed: integers apart from other numbers, object members in text order. -/
inductive Json where
  | null
  | bool (b : Bool)
  | int (i : Int)
  | real (repr : Text)
  | str (s : Text)
  | arr (vs : List Json)
  | obj (members : List (Text × Json))

namespace Json

/-- The four hex digits of a `\u` escape below `0x20`. -/
def hex4 (n : Nat) : Text :=
  let d (k : Nat) : Char := if k < 10 then Char.ofNat (48 + k) else Char.ofNat (87 + k)
  ['0', '0', d (n / 16), d (n % 16)]

/-- The text of one character inside a JSON string. -/
def escapeChar (c : Char) : Text :=
  if c = '"' then ['\\', '"']
  else if c = '\\' then ['\\', '\\']
  else if c.toNat = 8 then ['\\', 'b']
  else if c.toNat = 9 then ['\\', 't']
  else if c.toNat = 10 then ['\\', 'n']
  else if c.toNat = 12 then ['\\', 'f']
  else if c.toNat = 13 then ['\\', 'r']
  else if c.toNat < 32 then '\\' :: 'u' :: hex4 c.toNat
  else [c]

/-- A quoted string. -/
def quote (s : Text) : Text := '"' :: (s.flatMap escapeChar ++ ['"'])

/-- A decimal integer. -/
def encodeInt (i : Int) : Text :=
  if i < 0 then '-' :: Nat.toDigits 10 i.natAbs else Nat.toDigits 10 i.natAbs

mutual
/-- The compact text of a value. -/
def encode : Json → Text
  | null => "null".toList
  | bool b => if b then "true".toList else "false".toList
  | int i => encodeInt i
  | real repr => repr
  | str s => quote s
  | arr vs => '[' :: (encodeElems vs ++ [']'])
  | obj ms => '\x7b' :: (encodeMembers ms ++ ['\x7d'])

/-- The elements of an array, separated by commas. -/
def encodeElems : List Json → Text
  | [] => []
  | [v] => encode v
  | v :: w :: vs => encode v ++ ',' :: encodeElems (w :: vs)

/-- The members of an object, separated by commas. -/
def encodeMembers : List (Text × Json) → Text
  | [] => []
  | [(k, v)] => quote k ++ ':' :: encode v
  | (k, v) :: m :: ms => quote k ++ ':' :: (encode v ++ ',' :: encodeMembers (m :: ms))
end

/-- An object with the given members. -/
def ofFields (fields : List (String × Json)) : Json := obj (fields.map fun f => (f.1.toList, f.2))

/-- The value of a key: `val["key"]` of `serde_json::Value` and of a Dart map. The last member of
that name counts; a value that is not an object has none. -/
def get? (v : Json) (key : String) : Option Json :=
  match v with
  | obj ms => ((ms.filter fun m => m.1 = key.toList).getLast?).map (·.2)
  | _ => none

/-- `as_object_mut().unwrap().remove(key)`. -/
def remove (v : Json) (key : String) : Json :=
  match v with
  | obj ms => obj (ms.filter fun m => m.1 ≠ key.toList)
  | v => v

/-- `as_str`. -/
def asStr : Json → Option Text
  | str s => some s
  | _ => none

/-- A number that fits a `u64` field. -/
def asU64 : Json → Option Nat
  | int i => if 0 ≤ i ∧ i < 2 ^ 64 then some i.toNat else none
  | _ => none

end Json

/-! ## Derived `Deserialize` -/

/-- The members a derived struct visitor sees: those of an object, or the elements of an array of
exactly the struct's length in field order. -/
def structMembers (fields : List String) : Json → Option (List (Text × Json))
  | .obj ms => some ms
  | .arr vs => if vs.length = fields.length then some ((fields.map String.toList).zip vs) else none
  | _ => none

/-- The member of a struct field: `none` when the field is repeated, `some none` when it is
missing. -/
def structField (ms : List (Text × Json)) (key : String) : Option (Option Json) :=
  match ms.filter fun m => m.1 = key.toList with
  | [] => some none
  | [m] => some (some m.2)
  | _ => none

/-- A required field read by `read`. -/
def required {α : Type} (ms : List (Text × Json)) (key : String) (read : Json → Option α) :
    Option α :=
  match structField ms key with
  | some (some v) => read v
  | _ => none

/-- An `Option` field: missing and `null` both give `None`. -/
def optional {α : Type} (ms : List (Text × Json)) (key : String) (read : Json → Option α) :
    Option (Option α) :=
  match structField ms key with
  | some none => some none
  | some (some .null) => some none
  | some (some v) => (read v).map some
  | none => none

/-- The JSON crate as the programs use it: `from_str` and `from_slice` on texts and bytes, and
`to_string` on a parsed `Value`. -/
structure SerdeJson where
  fromStr : Text → Option Json
  fromSlice : Bytes → Option Json
  valueToString : Json → Text

/-- `serde_json::to_vec`: the UTF-8 bytes of the compact text. -/
def toVec (v : Json) : Bytes := v.encode.flatMap String.utf8EncodeChar

/-- The members in the order of their keys, as a `Value` keeps them. -/
def Json.sorted : Json → Json
  | .obj ms => .obj (ms.insertionSort fun m n => m.1 ≤ n.1)
  | v => v

/-! ## Objects with distinct keys -/

/-- The member of a key is the only one that a reader finds, at whatever place it stands. -/
theorem filter_key_of_nodup {ms : List (Text × Json)} {key : Text} {v : Json}
    (hnd : (ms.map (·.1)).Nodup) (hm : (key, v) ∈ ms) :
    ms.filter (fun m => decide (m.1 = key)) = [(key, v)] := by
  induction ms with
  | nil => cases hm
  | cons m ms ih =>
      rw [List.map_cons, List.nodup_cons] at hnd
      rcases List.mem_cons.1 hm with rfl | hm
      · have hrest : ms.filter (fun m => decide (m.1 = key)) = [] := by
          rw [List.filter_eq_nil_iff]
          intro m' hm' hkey
          rw [decide_eq_true_eq] at hkey
          exact hnd.1 (List.mem_map.2 ⟨m', hm', hkey⟩)
        rw [List.filter_cons, if_pos (decide_eq_true rfl), hrest]
      · have hne : ¬ decide (m.1 = key) = true := by
          rw [decide_eq_true_eq]
          rintro rfl
          exact hnd.1 (List.mem_map.2 ⟨_, hm, rfl⟩)
        rw [List.filter_cons, if_neg hne, ih hnd.2 hm]

theorem Json.get?_of_nodup {ms : List (Text × Json)} {key : String} {v : Json}
    (hnd : (ms.map (·.1)).Nodup) (hm : (key.toList, v) ∈ ms) : (obj ms).get? key = some v := by
  rw [get?, filter_key_of_nodup hnd hm]
  rfl

theorem Json.get?_of_notMem {ms : List (Text × Json)} {key : String}
    (h : ∀ m ∈ ms, m.1 ≠ key.toList) : (obj ms).get? key = none := by
  have hnil : ms.filter (fun m => decide (m.1 = key.toList)) = [] := by
    rw [List.filter_eq_nil_iff]
    intro m hm hkey
    exact h m hm (of_decide_eq_true hkey)
  rw [get?, hnil]
  rfl

theorem required_of_nodup {α : Type} {ms : List (Text × Json)} {key : String} {v : Json}
    (read : Json → Option α) (hnd : (ms.map (·.1)).Nodup) (hm : (key.toList, v) ∈ ms) :
    required ms key read = read v := by
  rw [required, structField, filter_key_of_nodup hnd hm]

theorem optional_of_notMem {α : Type} {ms : List (Text × Json)} {key : String}
    (read : Json → Option α) (h : ∀ m ∈ ms, m.1 ≠ key.toList) : optional ms key read = some none := by
  have hnil : ms.filter (fun m => decide (m.1 = key.toList)) = [] := by
    rw [List.filter_eq_nil_iff]
    intro m hm hkey
    exact h m hm (of_decide_eq_true hkey)
  rw [optional, structField, hnil]

theorem nodup_keys {fields : List (String × Json)} (h : (fields.map (·.1)).Nodup) :
    ((fields.map fun f => (f.1.toList, f.2)).map (·.1)).Nodup := by
  have hkeys : (fields.map fun f => (f.1.toList, f.2)).map (·.1) =
      (fields.map (·.1)).map String.toList := by
    rw [List.map_map, List.map_map]
    rfl
  rw [hkeys]
  exact h.map fun a b => String.toList_inj.1

theorem Json.get?_ofFields {fields : List (String × Json)} {key : String} {v : Json}
    (hnd : (fields.map (·.1)).Nodup) (hm : (key, v) ∈ fields) :
    (ofFields fields).get? key = some v :=
  get?_of_nodup (nodup_keys hnd) (List.mem_map.2 ⟨(key, v), hm, rfl⟩)

theorem required_ofFields {α : Type} {fields : List (String × Json)} {key : String} {v : Json}
    (read : Json → Option α) (hnd : (fields.map (·.1)).Nodup) (hm : (key, v) ∈ fields) :
    required (fields.map fun f => (f.1.toList, f.2)) key read = read v :=
  required_of_nodup read (nodup_keys hnd) (List.mem_map.2 ⟨(key, v), hm, rfl⟩)

theorem Json.exists_sorted (ms : List (Text × Json)) : ∃ ns, (obj ms).sorted = obj ns ∧ ns.Perm ms :=
  ⟨_, rfl, List.perm_insertionSort _ ms⟩

/-- A JSON crate for concrete runs with flat objects: it reads the texts of the values in `known`. -/
def SerdeJson.knowing (known : List Json) : SerdeJson where
  fromStr t := known.find? fun v => v.encode == t
  fromSlice bs := known.find? fun v => toVec v == bs
  valueToString v := v.sorted.encode

theorem SerdeJson.knowing_fromStr (v : Json) (vs : List Json) :
    (knowing (v :: vs)).fromStr v.encode = some v := by
  show (v :: vs).find? (fun w => w.encode == v.encode) = some v
  exact List.find?_cons_of_pos (beq_self_eq_true v.encode)

/-- A value is read back if no value before it has the same text. -/
theorem SerdeJson.fromStr_known {l r : List Json} {v : Json}
    (h : (l.any fun w => w.encode == v.encode) = false) :
    (knowing (l ++ v :: r)).fromStr v.encode = some v := by
  have hbefore : l.find? (fun w => w.encode == v.encode) = none := by
    rw [List.find?_eq_none]
    intro w hw heq
    have hany : (l.any fun w => w.encode == v.encode) = true := List.any_eq_true.2 ⟨w, hw, heq⟩
    rw [h] at hany
    cases hany
  show (l ++ v :: r).find? (fun w => w.encode == v.encode) = some v
  rw [List.find?_append, hbefore, Option.none_or]
  exact List.find?_cons_of_pos (beq_self_eq_true v.encode)

end Ktty.Wire
