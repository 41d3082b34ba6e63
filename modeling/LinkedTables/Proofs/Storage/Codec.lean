import Mathlib
import LinkedTables.Storage.Schema
import LinkedTables.Storage.Settings

/-!
# Stored values come back

A codec is **exact** (`Codec.Exact`) if reading undoes writing and writing undoes reading.  The
first half speaks of the values that the format has room for, and of whatever stands behind them;
the second half speaks of all sequences of bytes, so it is what excludes a second way to write a
value.

Each part that codecs are put together from hands exactness on, with the room that it leaves: a
number has to be below the power of 256 that its width gives, and the length of a list or a text has
to be such a number.  The codecs of schemas and settings are then exact because they are put
together from these parts, whatever the schema says: `Schema.Fits` asks for nothing but room, which
every schema has whose numbers have 64 bits.
-/

namespace LinkedTables

namespace Codec

variable {α β : Type} {a : Codec α} {b : Codec β} {P : α → Prop} {Q : β → Prop}

/-- What is written is read back, and what is read was written: `P` holds of the values that there
is room for. -/
structure Exact (a : Codec α) (P : α → Prop) : Prop where
  decode_encode : ∀ {x}, P x → ∀ rest, a.decode (a.encode x ++ rest) = some (x, rest)
  eq_encode : ∀ {bytes x rest}, a.decode bytes = some (x, rest) →
    P x ∧ bytes = a.encode x ++ rest

/-- Room in other words. -/
lemma Exact.congr {Q : α → Prop} (ha : a.Exact P) (h : ∀ x, P x ↔ Q x) : a.Exact Q := by
  rwa [← funext fun x => propext (h x)]

/-! ## Numbers -/

lemma readNumber_numberBytes {width : ℕ} : ∀ {n : ℕ}, n < 256 ^ width → ∀ rest,
    readNumber width (numberBytes width n ++ rest) = some (n, rest) := by
  induction width with
  | zero =>
    intro n hn rest
    obtain rfl : n = 0 := by simpa using hn
    rfl
  | succ width ih =>
    intro n hn rest
    have hhigh : n / 256 < 256 ^ width := Nat.div_lt_of_lt_mul (by rwa [← pow_succ'])
    have hlow : (UInt8.ofNat (n % 256)).toNat = n % 256 :=
      UInt8.toNat_ofNat_of_lt (Nat.mod_lt n (by decide))
    simp only [numberBytes, List.cons_append, readNumber, ih hhigh rest, hlow]
    exact congrArg (fun m => some (m, rest)) (Nat.mod_add_div n 256)

lemma eq_numberBytes_of_readNumber {width : ℕ} : ∀ {bytes rest : Bytes} {n : ℕ},
    readNumber width bytes = some (n, rest) →
      n < 256 ^ width ∧ bytes = numberBytes width n ++ rest := by
  induction width with
  | zero =>
    intro bytes rest n h
    cases h
    exact ⟨Nat.one_pos, rfl⟩
  | succ width ih =>
    intro bytes rest n h
    cases bytes with
    | nil => cases h
    | cons low bytes =>
      obtain ⟨⟨high, rest'⟩, hread, h⟩ := Option.bind_eq_some_iff.1 h
      cases h
      obtain ⟨hhigh, rfl⟩ := ih hread
      have hlow : low.toNat < 256 := low.toNat_lt
      have hmod : (low.toNat + 256 * high) % 256 = low.toNat := by omega
      have hdiv : (low.toNat + 256 * high) / 256 = high := by omega
      refine ⟨by rw [pow_succ']; omega, ?_⟩
      rw [numberBytes, hmod, hdiv, UInt8.ofNat_toNat]
      rfl

/-- **Numbers of a width are exact** if they are not too large for it. -/
lemma exact_number (width : ℕ) : (number width).Exact (· < 256 ^ width) :=
  ⟨readNumber_numberBytes, eq_numberBytes_of_readNumber⟩

lemma exact_word : word.Exact (· < UInt64.size) := exact_number 8

/-! ## Parts in order -/

lemma Exact.pair (ha : a.Exact P) (hb : b.Exact Q) :
    (a.pair b).Exact fun x => P x.1 ∧ Q x.2 := by
  constructor
  · rintro ⟨x, y⟩ ⟨hx, hy⟩ rest
    simp only [Codec.pair, List.append_assoc, ha.decode_encode hx]
    show (b.decode (b.encode y ++ rest) >>= _) = _
    rw [hb.decode_encode hy]
    rfl
  · intro bytes x rest h
    obtain ⟨⟨y, rest₁⟩, hy, h⟩ := Option.bind_eq_some_iff.1 h
    obtain ⟨⟨z, rest₂⟩, hz, h⟩ := Option.bind_eq_some_iff.1 h
    cases h
    obtain ⟨hPy, rfl⟩ := ha.eq_encode hy
    obtain ⟨hQz, rfl⟩ := hb.eq_encode hz
    exact ⟨⟨hPy, hQz⟩, (List.append_assoc ..).symm⟩

/-- A correspondence of values has to be undone in both directions: `make` may refuse some, but what
it makes has to be taken apart again. -/
lemma Exact.mapping {take : β → α} {make : α → Option β} (ha : a.Exact P)
    (hmake : ∀ y, make (take y) = some y) (htake : ∀ {x y}, make x = some y → take y = x) :
    (a.mapping take make).Exact fun y => P (take y) := by
  constructor
  · intro y hy rest
    simp only [Codec.mapping, ha.decode_encode hy]
    show (make (take y) >>= _) = _
    rw [hmake]
    rfl
  · intro bytes y rest h
    obtain ⟨⟨x, rest₁⟩, hx, h⟩ := Option.bind_eq_some_iff.1 h
    obtain ⟨y', hy, h⟩ := Option.bind_eq_some_iff.1 h
    cases h
    obtain ⟨hPx, rfl⟩ := ha.eq_encode hx
    obtain rfl := htake hy
    exact ⟨hPx, rfl⟩

/-! ## Sequences -/

lemma Exact.readMany_flatMap (ha : a.Exact P) {xs : List α} : ∀ {done : List α},
    (∀ x ∈ xs, P x) → ∀ rest, readMany a done xs.length (xs.flatMap a.encode ++ rest)
      = some (done.reverse ++ xs, rest) := by
  induction xs with
  | nil =>
    intro done _ rest
    simp [readMany]
  | cons x xs ih =>
    intro done hxs rest
    obtain ⟨hx, hxs⟩ := List.forall_mem_cons.1 hxs
    rw [List.flatMap_cons, List.append_assoc, List.length_cons, readMany, ha.decode_encode hx]
    have hrest := @ih (x :: done) hxs rest
    simpa using hrest

lemma Exact.of_readMany (ha : a.Exact P) {count : ℕ} : ∀ {done ys : List α} {bytes rest : Bytes},
    readMany a done count bytes = some (ys, rest) → ∃ xs, ys = done.reverse ++ xs
      ∧ xs.length = count ∧ (∀ x ∈ xs, P x) ∧ bytes = xs.flatMap a.encode ++ rest := by
  induction count with
  | zero =>
    intro done ys bytes rest h
    cases h
    exact ⟨[], by simp, rfl, by simp, rfl⟩
  | succ count ih =>
    intro done ys bytes rest h
    rw [readMany] at h
    split at h
    · rename_i x rest₁ hx
      obtain ⟨hPx, rfl⟩ := ha.eq_encode hx
      obtain ⟨xs, rfl, hlength, hxs, rfl⟩ := ih h
      refine ⟨x :: xs, by simp, congrArg (· + 1) hlength, List.forall_mem_cons.2 ⟨hPx, hxs⟩, ?_⟩
      rw [List.flatMap_cons, List.append_assoc]
    · cases h

/-- **Lists are exact** if their entries are and they are not too long. -/
lemma Exact.list (ha : a.Exact P) :
    a.list.Exact fun xs => xs.length < UInt64.size ∧ ∀ x ∈ xs, P x := by
  constructor
  · rintro xs ⟨hlength, hxs⟩ rest
    simp only [Codec.list, List.append_assoc, exact_word.decode_encode hlength]
    exact ha.readMany_flatMap hxs rest
  · intro bytes xs rest hread
    obtain ⟨⟨count, rest₁⟩, hcount, h⟩ := Option.bind_eq_some_iff.1 hread
    obtain ⟨hlt, rfl⟩ := exact_word.eq_encode hcount
    obtain ⟨xs', hxs', rfl, hxs, rfl⟩ := ha.of_readMany h
    rw [List.reverse_nil, List.nil_append] at hxs'
    subst hxs'
    exact ⟨⟨hlt, hxs⟩, (List.append_assoc ..).symm⟩

/-- The list of a byte array is that of the array it holds. -/
lemma toList_byteArray (bytes : ByteArray) : bytes.toList = bytes.data.toList := by
  have key : ∀ i found, ByteArray.toList.loop bytes i found
      = found.reverse ++ bytes.data.toList.drop i := by
    intro i found
    fun_induction ByteArray.toList.loop bytes i found with
    | case1 i found hlt ih =>
      have hlt' : i < bytes.data.toList.length := hlt
      have hget : bytes.get! i = bytes.data.toList[i] := getElem!_pos bytes.data i hlt
      rw [ih, List.drop_eq_getElem_cons hlt', hget]
      simp
    | case2 i found hlt =>
      have hle : bytes.data.toList.length ≤ i := Nat.not_lt.1 hlt
      rw [List.drop_eq_nil_of_le hle, List.append_nil]
  simpa [ByteArray.toList] using key 0 []

lemma length_toList_toByteArray (s : String) : s.toByteArray.toList.length = s.utf8ByteSize := by
  rw [toList_byteArray]
  rfl

/-- A text is read from bytes exactly if they are its own. -/
lemma fromUTF8?_eq_some_iff {bytes : Bytes} {s : String} :
    String.fromUTF8? ⟨bytes.toArray⟩ = some s ↔ bytes = s.toByteArray.toList := by
  rw [toList_byteArray]
  constructor
  · intro h
    rw [String.fromUTF8?] at h
    split at h
    · cases h
      rfl
    · cases h
  · rintro rfl
    rw [String.fromUTF8?, dif_pos s.isValidUTF8]
    rfl

/-- **Texts are exact** if they are not too long; bytes that are no text are refused. -/
lemma exact_text : text.Exact fun s => s.utf8ByteSize < UInt64.size := by
  constructor
  · intro s hs rest
    have hlength := length_toList_toByteArray s
    simp only [text, List.append_assoc, exact_word.decode_encode hs]
    show (if s.utf8ByteSize ≤ (s.toByteArray.toList ++ rest).length then _ else _) = _
    rw [if_pos (by simp [hlength]), List.take_left' hlength, List.drop_left' hlength,
      fromUTF8?_eq_some_iff.2 rfl]
    rfl
  · intro bytes s rest hread
    obtain ⟨⟨size, rest₁⟩, hsize, h⟩ := Option.bind_eq_some_iff.1 hread
    obtain ⟨hlt, rfl⟩ := exact_word.eq_encode hsize
    dsimp only at h
    split_ifs at h with hle
    obtain ⟨s', hs, h⟩ := Option.bind_eq_some_iff.1 h
    cases h
    have hbytes := fromUTF8?_eq_some_iff.1 hs
    -- the bytes taken are as many as announced
    have hlength := congrArg List.length hbytes
    rw [List.length_take, Nat.min_eq_left hle, length_toList_toByteArray] at hlength
    subst hlength
    refine ⟨hlt, ?_⟩
    show _ = (word.encode s.utf8ByteSize ++ s.toByteArray.toList) ++ _
    rw [← hbytes, List.append_assoc, List.take_append_drop]

/-- **Optional values are exact**: the byte in front is one of two. -/
lemma Exact.option (ha : a.Exact P) : a.option.Exact fun o => ∀ x ∈ o, P x := by
  constructor
  · rintro (_ | x) hx rest
    · rfl
    · simp only [Codec.option, List.cons_append, if_true, ha.decode_encode (hx x rfl)]
      rfl
  · intro bytes o rest h
    cases bytes with
    | nil => cases h
    | cons tag bytes =>
      simp only [Codec.option] at h
      split_ifs at h with hnone hsome
      · cases h
        exact ⟨by simp, by rw [hnone]; rfl⟩
      · obtain ⟨⟨x, rest₁⟩, hx, h⟩ := Option.map_eq_some_iff.1 h
        cases h
        obtain ⟨hPx, rfl⟩ := ha.eq_encode hx
        exact ⟨by simpa using hPx, by rw [hsome]; rfl⟩

/-! ## One value, one sequence of bytes -/

/-- An exact codec, and what follows: two values are never written alike, and no value is read from
two sequences of bytes. -/
structure Unambiguous (a : Codec α) (P : α → Prop) : Prop extends a.Exact P where
  encode_inj : ∀ {x y}, P x → P y → a.encode x = a.encode y → x = y
  bytes_unique : ∀ {bytes bytes' x}, a.decode bytes = some (x, []) →
    a.decode bytes' = some (x, []) → bytes = bytes'

lemma Exact.unambiguous (ha : a.Exact P) : a.Unambiguous P := by
  refine ⟨ha, fun {x y} hx hy h => ?_, fun h h' => ?_⟩
  · have hread := ha.decode_encode hx []
    rw [h, ha.decode_encode hy []] at hread
    cases hread
    rfl
  · rw [(ha.eq_encode h).2, (ha.eq_encode h').2]

end Codec

/-! ## Schemas and settings -/

/-- The identifiers have 64 bits, and so have the lengths of the texts. -/
structure Relation.Fits (r : Relation) : Prop where
  source : r.source < UInt64.size
  name : r.name.utf8ByteSize < UInt64.size
  target : r.target < UInt64.size
  onLeft : r.onLeft.utf8ByteSize < UInt64.size
  onRight : r.onRight.utf8ByteSize < UInt64.size

/-- All numbers and lengths have 64 bits.  Nothing is asked of what the identifiers and names refer
to. -/
structure Schema.Fits (s : Schema) : Prop where
  size : s.size < UInt64.size
  name : ∀ e ∈ s.entries, e.name.utf8ByteSize < UInt64.size
  length : ∀ e ∈ s.entries, e.relations.length < UInt64.size
  relation : ∀ e ∈ s.entries, ∀ r ∈ e.relations, r.Fits

/-- The limits have 64 bits. -/
structure Settings.Fits (s : Settings) : Prop where
  maxExpressionLength : s.maxExpressionLength < UInt64.size
  maxFrameRows : ∀ n ∈ s.maxFrameRows, n < UInt64.size

lemma Relation.exact_codec : Relation.codec.Exact Relation.Fits := by
  have hparts : Relation.codec.Exact _ :=
    (Codec.exact_word.pair (Codec.exact_text.pair (Codec.exact_word.pair
      (Codec.exact_text.pair Codec.exact_text)))).mapping (fun _ => rfl) (fun h => by cases h; rfl)
  refine hparts.congr fun r => ⟨?_, ?_⟩
  · rintro ⟨hsource, hname, htarget, hleft, hright⟩
    exact ⟨hsource, hname, htarget, hleft, hright⟩
  · rintro ⟨hsource, hname, htarget, hleft, hright⟩
    exact ⟨hsource, hname, htarget, hleft, hright⟩

lemma Schema.exact_codec : Schema.codec.Exact Schema.Fits := by
  have hentry : Schema.Entry.codec.Exact fun e => e.name.utf8ByteSize < UInt64.size
      ∧ e.relations.length < UInt64.size ∧ ∀ r ∈ e.relations, r.Fits :=
    (Codec.exact_text.pair Relation.exact_codec.list).mapping (fun _ => rfl)
      (fun h => by cases h; rfl)
  have hparts : Schema.codec.Exact _ :=
    hentry.list.mapping (fun _ => rfl) (fun h => by cases h; rfl)
  refine hparts.congr fun s => ⟨?_, ?_⟩
  · rintro ⟨hsize, hentries⟩
    simp only [Array.mem_toList_iff] at hentries
    exact ⟨hsize, fun e he => (hentries e he).1, fun e he => (hentries e he).2.1,
      fun e he => (hentries e he).2.2⟩
  · rintro ⟨hsize, hname, hlength, hrelation⟩
    refine ⟨hsize, fun e he => ?_⟩
    rw [Array.mem_toList_iff] at he
    exact ⟨hname e he, hlength e he, hrelation e he⟩

/-- A number that is no rule is refused. -/
lemma UnqualifiedRule.exact_codec : UnqualifiedRule.codec.Exact fun _ => True := by
  refine ((Codec.exact_number 4).mapping (fun rule => ?_) (fun {n rule} h => ?_)).congr
    fun rule => ?_
  · cases rule <;> rfl
  · match n with
    | 0 | 1 =>
      cases h
      rfl
    | n + 2 => cases h
  · cases rule <;> simp [toNumber]

lemma Settings.exact_codec : Settings.codec.Exact Settings.Fits := by
  have hparts : Settings.codec.Exact _ :=
    (Codec.exact_word.pair (Codec.exact_word.option.pair UnqualifiedRule.exact_codec)).mapping
      (fun _ => rfl) (fun h => by cases h; rfl)
  refine hparts.congr fun s => ⟨?_, ?_⟩
  · rintro ⟨hlength, hrows, -⟩
    exact ⟨hlength, hrows⟩
  · rintro ⟨hlength, hrows⟩
    exact ⟨hlength, hrows, trivial⟩

/-- **Schemas and settings are stored without loss and in one way only.**  What is written is read
back, whatever stands behind it; whatever bytes are read begin with what is written for the value;
so two values are never written alike, and no value has two sequences of bytes. -/
theorem unambiguous_codecs :
    Schema.codec.Unambiguous Schema.Fits ∧ Settings.codec.Unambiguous Settings.Fits :=
  ⟨Schema.exact_codec.unambiguous, Settings.exact_codec.unambiguous⟩

/-- A schema that no calls lead to: the name of a table and that of a relation stand twice, a
relation stands with another table than its source, and the identifiers are those of no table. -/
def tangled : Schema :=
  ⟨#[⟨"h", [⟨7, "o", 18446744073709551615, "k", "clé"⟩, ⟨0, "o", 3, "", "k"⟩]⟩, ⟨"h", []⟩]⟩

theorem unambiguous_codecs_tangled :
    tangled.Fits
      ∧ Schema.codec.decode (Schema.codec.encode tangled ++ [0, 255]) = some (tangled, [0, 255])
      ∧ Settings.codec.decode (Settings.codec.encode ⟨64, some 0, .strict⟩ ++ [2])
        = some (⟨64, some 0, .strict⟩, [2]) := by
  have hlargest : Relation.Fits ⟨7, "o", 18446744073709551615, "k", "clé"⟩ :=
    ⟨by decide, by decide, by decide, by decide, by decide⟩
  have hempty : Relation.Fits ⟨0, "o", 3, "", "k"⟩ :=
    ⟨by decide, by decide, by decide, by decide, by decide⟩
  have hfits : tangled.Fits :=
    ⟨by decide, by decide, by decide, by simpa [tangled] using ⟨hlargest, hempty⟩⟩
  obtain ⟨hschema, hsettings⟩ := unambiguous_codecs
  exact ⟨hfits, hschema.decode_encode hfits _, hsettings.decode_encode ⟨by decide, by simp⟩ _⟩

example : Settings.codec.encode ⟨1048576, some 3, .strict⟩
    = [0, 0, 16, 0, 0, 0, 0, 0, 1, 3, 0, 0, 0, 0, 0, 0, 0, 1, 0, 0, 0] := by
  decide

end LinkedTables
