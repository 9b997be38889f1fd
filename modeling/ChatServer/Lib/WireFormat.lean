import Mathlib.Data.Nat.Init
import Mathlib.Data.String.Basic
import ChatServer.Lib.StreamDecoder

/-!
The wire format of protocol buffers, for messages of numbers and byte strings.
A message is a sequence of fields, each with a key that holds the number and the
kind of the field. A number is a varint, seven bits to a byte from the lowest on;
a byte string comes behind its length. A field that has its default value is
left out of a message.
-/
namespace ChatServer.Lib.WireFormat

open StreamDecoder

section Varint

def varintBytes : ℕ → ℕ → List UInt8
  | 0, n => [UInt8.ofNat n]
  | fuel + 1, n =>
      if n < 128 then [UInt8.ofNat n]
      else UInt8.ofNat (n % 128 + 128) :: varintBytes fuel (n / 128)

/-- Each byte but the last has its highest bit set. -/
def encodeVarint (n : ℕ) : List UInt8 := varintBytes n n

def decodeVarint : List UInt8 → Option (ℕ × List UInt8)
  | [] => none
  | b :: rest =>
      if b.toNat < 128 then some (b.toNat, rest)
      else (decodeVarint rest).map fun r => (b.toNat - 128 + 128 * r.1, r.2)

theorem decodeVarint_cons_lt {b : UInt8} (h : b.toNat < 128) (rest : List UInt8) :
    decodeVarint (b :: rest) = some (b.toNat, rest) := if_pos h

theorem decode_varintBytes {fuel n : ℕ} (h : n ≤ fuel) (rest : List UInt8) :
    decodeVarint (varintBytes fuel n ++ rest) = some (n, rest) := by
  induction fuel generalizing n with
  | zero =>
    obtain rfl := Nat.le_zero.mp h
    rfl
  | succ fuel ih =>
    unfold varintBytes
    split
    · rename_i hsmall
      have hbyte : (UInt8.ofNat n).toNat = n := by
        rw [UInt8.toNat_ofNat']
        omega
      rw [List.singleton_append, decodeVarint_cons_lt (by omega), hbyte]
    · rename_i hlarge
      have hbyte : (UInt8.ofNat (n % 128 + 128)).toNat = n % 128 + 128 := by
        rw [UInt8.toNat_ofNat']
        omega
      rw [List.cons_append, decodeVarint, hbyte, if_neg (by omega), ih (by omega)]
      simp only [Option.map_some, Option.some.injEq, Prod.mk.injEq, and_true]
      omega

theorem decode_encodeVarint (n : ℕ) (rest : List UInt8) :
    decodeVarint (encodeVarint n ++ rest) = some (n, rest) := decode_varintBytes (le_refl n) rest

theorem decodeVarint_shrinks {s rest : List UInt8} {n : ℕ} (h : decodeVarint s = some (n, rest)) :
    rest.length < s.length := by
  induction s generalizing n with
  | nil => cases h
  | cons b s ih =>
    unfold decodeVarint at h
    split at h
    · cases h
      exact Nat.lt_succ_self _
    · obtain ⟨⟨m, r⟩, hr, heq⟩ := Option.map_eq_some_iff.mp h
      cases heq
      exact Nat.lt_succ_of_lt (ih hr)

theorem varintBytes_length {fuel n k : ℕ} (h : n < 128 ^ (k + 1)) :
    (varintBytes fuel n).length ≤ k + 1 := by
  induction k generalizing fuel n with
  | zero =>
    cases fuel with
    | zero => exact le_refl _
    | succ fuel =>
      have hsmall : n < 128 := by simpa using h
      rw [varintBytes, if_pos hsmall]
      exact le_refl _
  | succ k ih =>
    cases fuel with
    | zero => simp [varintBytes]
    | succ fuel =>
      unfold varintBytes
      split
      · simp
      · have hdiv : n / 128 < 128 ^ (k + 1) := by
          rw [Nat.div_lt_iff_lt_mul (by omega), ← pow_succ]
          exact h
        exact Nat.succ_le_succ (ih hdiv)

/-- A varint of seven bits for each byte. -/
theorem encodeVarint_length {n k : ℕ} (h : n < 128 ^ (k + 1)) :
    (encodeVarint n).length ≤ k + 1 := varintBytes_length h

end Varint

section Fields

inductive Value
  | varint (n : ℕ)
  | bytes (b : List UInt8)
deriving DecidableEq

structure Field where
  number : ℕ
  value : Value
deriving DecidableEq

def encodeField (field : Field) : List UInt8 :=
  match field.value with
  | .varint n => encodeVarint (field.number * 8) ++ encodeVarint n
  | .bytes b => encodeVarint (field.number * 8 + 2) ++ (encodeVarint b.length ++ b)

def decodeValue (kind : ℕ) (s : List UInt8) : Option (Value × List UInt8) :=
  (decodeVarint s).bind fun (n, rest) =>
    if kind = 0 then some (.varint n, rest)
    else if kind = 2 ∧ n ≤ rest.length then some (.bytes (rest.take n), rest.drop n)
    else none

def decodeField (s : List UInt8) : Option (Field × List UInt8) :=
  (decodeVarint s).bind fun (key, rest) =>
    (decodeValue (key % 8) rest).map fun (value, rest) => (⟨key / 8, value⟩, rest)

theorem decode_encodeField (field : Field) (rest : List UInt8) :
    decodeField (encodeField field ++ rest) = some (field, rest) := by
  obtain ⟨number, value⟩ := field
  cases value with
  | varint n =>
    have hkind : number * 8 % 8 = 0 := by omega
    have hnumber : number * 8 / 8 = number := by omega
    simp only [encodeField, decodeField, decodeValue, List.append_assoc, decode_encodeVarint,
      Option.bind_some, hkind, hnumber, if_true, Option.map_some]
  | bytes b =>
    have hkind : (number * 8 + 2) % 8 = 2 := by omega
    have hnumber : (number * 8 + 2) / 8 = number := by omega
    have hlen : b.length ≤ (b ++ rest).length := by simp
    have htwo : ¬ 2 = 0 := by omega
    simp only [encodeField, decodeField, decodeValue, List.append_assoc, decode_encodeVarint,
      Option.bind_some, hkind, hnumber, hlen, htwo, and_self, if_true, if_false,
      List.take_left, List.drop_left, Option.map_some]

theorem decodeValue_shrinks {kind : ℕ} {s rest : List UInt8} {value : Value}
    (h : decodeValue kind s = some (value, rest)) : rest.length < s.length := by
  obtain ⟨⟨n, mid⟩, hn, hvalue⟩ := Option.bind_eq_some_iff.mp h
  have hmid := decodeVarint_shrinks hn
  dsimp only at hvalue
  split at hvalue
  · cases hvalue
    exact hmid
  · split at hvalue
    · cases hvalue
      rw [List.length_drop]
      omega
    · cases hvalue

theorem decodeField_shrinks {s rest : List UInt8} {field : Field}
    (h : decodeField s = some (field, rest)) : rest.length < s.length := by
  obtain ⟨⟨key, mid⟩, hkey, hfield⟩ := Option.bind_eq_some_iff.mp h
  obtain ⟨⟨value, last⟩, hvalue, heq⟩ := Option.map_eq_some_iff.mp hfield
  cases heq
  exact (decodeValue_shrinks hvalue).trans (decodeVarint_shrinks hkey)

def fieldDecoder : Decoder (List UInt8) Field where
  decode s :=
    match decodeField s with
    | some (field, rest) => (some field, rest)
    | none => (none, s)
  size := List.length
  shrinks s field rest h := by
    cases hs : decodeField s with
    | none =>
      rw [hs] at h
      cases h
    | some result =>
      rw [hs] at h
      cases h
      exact decodeField_shrinks hs

def encodeFields (fields : List Field) : List UInt8 := fields.flatMap encodeField

/-- All of the fields, if there is nothing else. -/
def decodeFields (s : List UInt8) : Option (List Field) :=
  let (fields, rest) := fieldDecoder.drain s
  if rest = [] then some fields else none

theorem drain_encodeFields (fields : List Field) :
    fieldDecoder.drain (encodeFields fields) = (fields, []) := by
  induction fields with
  | nil => exact fieldDecoder.drain_of_none rfl
  | cons field fields ih =>
    have hfirst : fieldDecoder.decode (encodeFields (field :: fields)) =
        (some field, encodeFields fields) := by
      change (match decodeField (encodeField field ++ encodeFields fields) with
        | some (field, rest) => (some field, rest)
        | none => (none, encodeField field ++ encodeFields fields)) = _
      rw [decode_encodeField]
    rw [fieldDecoder.drain_of_some hfirst, ih]

theorem decode_encodeFields (fields : List Field) :
    decodeFields (encodeFields fields) = some fields := by
  rw [decodeFields, drain_encodeFields]
  rfl

theorem encodeFields_append (fields fields' : List Field) :
    encodeFields (fields ++ fields') = encodeFields fields ++ encodeFields fields' :=
  List.flatMap_append

theorem length_le_encode_bytes (number : ℕ) (b : List UInt8) :
    b.length ≤ (encodeFields [⟨number, .bytes b⟩]).length := by
  simp only [encodeFields, encodeField, List.flatMap_cons, List.flatMap_nil, List.length_append]
  omega

/-- The key and the length of a short field take three bytes. -/
theorem encode_bytes_length_le {number : ℕ} {b : List UInt8} (hnumber : number < 15)
    (hb : b.length < 16384) : (encodeFields [⟨number, .bytes b⟩]).length ≤ 3 + b.length := by
  have hkey : (encodeVarint (number * 8 + 2)).length ≤ 0 + 1 := encodeVarint_length (by omega)
  have hlen : (encodeVarint b.length).length ≤ 1 + 1 := encodeVarint_length (by omega)
  simp only [encodeFields, encodeField, List.flatMap_cons, List.flatMap_nil, List.length_append,
    List.length_nil]
  omega

end Fields

section Scalars

def utf8 (s : String) : List UInt8 := s.toByteArray.data.toList

theorem utf8_length (s : String) : (utf8 s).length = s.utf8ByteSize := by
  rw [← String.size_toByteArray]
  rfl

def ofUtf8 (b : List UInt8) : Option String := String.fromUTF8? ⟨b.toArray⟩

theorem ofUtf8_utf8 (s : String) : ofUtf8 (utf8 s) = some s := by
  have hbytes : (⟨(utf8 s).toArray⟩ : ByteArray) = s.toByteArray := rfl
  rw [ofUtf8, hbytes, String.fromUTF8?, dif_pos s.isValidUTF8]
  rfl

def stringField (number : ℕ) (s : String) : List Field :=
  if s = "" then [] else [⟨number, .bytes (utf8 s)⟩]

def uintField (number n : ℕ) : List Field := if n = 0 then [] else [⟨number, .varint n⟩]

/-- A field is at least as long as its string. -/
theorem length_le_stringField (number : ℕ) (s : String) :
    s.utf8ByteSize ≤ (encodeFields (stringField number s)).length := by
  unfold stringField
  split
  · rename_i hempty
    rw [hempty]
    exact Nat.zero_le _
  · rw [← utf8_length]
    exact length_le_encode_bytes number (utf8 s)

theorem stringField_length_le {number : ℕ} (s : String) (hnumber : number < 15)
    (hs : s.utf8ByteSize < 16384) :
    (encodeFields (stringField number s)).length ≤ 3 + s.utf8ByteSize := by
  unfold stringField
  split
  · exact Nat.zero_le _
  · rw [← utf8_length] at hs ⊢
    exact encode_bytes_length_le hnumber hs

def lookup (number : ℕ) (fields : List Field) : Option Value :=
  (fields.find? (·.number = number)).map Field.value

/-- A field that is missing has the default of its type. -/
def asString : Option Value → Option String
  | none => some ""
  | some (.bytes b) => ofUtf8 b
  | some (.varint _) => none

def asUint : Option Value → Option ℕ
  | none => some 0
  | some (.varint n) => some n
  | some (.bytes _) => none

@[simp]
theorem lookup_append (number : ℕ) (fields fields' : List Field) :
    lookup number (fields ++ fields') = (lookup number fields).or (lookup number fields') := by
  unfold lookup
  rw [List.find?_append]
  cases fields.find? (·.number = number) with
  | none => rfl
  | some field => rfl

theorem lookup_stringField_ne {number number' : ℕ} (h : number' ≠ number) (s : String) :
    lookup number (stringField number' s) = none := by
  unfold stringField lookup
  split
  · rfl
  · simp [h]

theorem lookup_uintField_ne {number number' : ℕ} (h : number' ≠ number) (n : ℕ) :
    lookup number (uintField number' n) = none := by
  unfold uintField lookup
  split
  · rfl
  · simp [h]

@[simp]
theorem asString_lookup (number : ℕ) (s : String) :
    asString (lookup number (stringField number s)) = some s := by
  unfold stringField lookup
  split
  · rename_i hempty
    rw [hempty]
    rfl
  · simp [asString, ofUtf8_utf8]

@[simp]
theorem asUint_lookup (number n : ℕ) :
    asUint (lookup number (uintField number n)) = some n := by
  unfold uintField lookup
  split
  · rename_i hzero
    rw [hzero]
    rfl
  · simp [asUint]

end Scalars

end ChatServer.Lib.WireFormat
