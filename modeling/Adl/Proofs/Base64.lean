import Adl.Base64
import Adl.Proofs.Success
import Mathlib.Data.List.Basic

/-!
# Base64 — reading what was written, and nothing else

`decode` gives back the bytes that `encode` has written (`decode_encode`), and it accepts no other
texts than these (`encode_of_decode`), so each byte sequence has one text and `decode` succeeds on
just these texts (`decode_eq_ok_iff`).  The proofs go by groups of three bytes: the symbols of a
group are read to the values they were written for, and these values hold the bits of the bytes.  In
the other direction the bits of the last symbol that hold nothing matter: they are zero in what is
read, as they are in what is written.
-/

namespace Adl.Base64

/-! ### Symbols -/

/-- A symbol is read as the value it is written for, and it is ASCII and not the padding. -/
theorem symbolOf_spec : ∀ v < 64, valueOf? (symbolOf v) = some v ∧ symbolOf v ≠ pad ∧
    (symbolOf v).toNat < 128 := by
  decide

variable {group : Nat} {a b c : UInt8} {v : Nat}

theorem symbolAt_symbolOf (h : v < 64) (offset : Nat) : symbolAt offset (symbolOf v) = .ok v := by
  rw [symbolAt, (symbolOf_spec v h).1]

theorem eq_of_bits {n : Nat} (h : n = a.toNat) : UInt8.ofNat n = a := by
  rw [h, UInt8.ofNat_toNat]

/-! ### Groups -/

theorem scanLast_pads (i : Nat) (hi : 2 ≤ i) (padded : Option Nat) :
    scanLast group i padded [pad] = .ok ([], 1) ∧
      scanLast group i padded [pad, pad] = .ok ([], 2) := by
  have h : ¬ i < 2 := by omega
  have h' : ¬ i + 1 < 2 := by omega
  constructor
  · simp [scanLast, h, Except.map]
  · simp [scanLast, h, h', Except.map]

theorem scanLast_symbolOf (h : v < 64) (i : Nat) (rest : List UInt8) :
    scanLast group i none (symbolOf v :: rest) = do
      let (symbols, n) ← scanLast group (i + 1) none rest
      return ((symbolOf v, v) :: symbols, n) := by
  rw [scanLast, if_neg (symbolOf_spec v h).2.1]
  dsimp only
  rw [symbolAt_symbolOf h]
  rfl

/-! ### The last group -/

section Last

variable {bytes : List UInt8} {p q r s : UInt8} {v w x y : Nat} (hne : bytes.isEmpty = false)

include hne

theorem decodeLast_of_two (hscan : scanLast group 0 none bytes = .ok ([(p, v), (q, w)], 2))
    (hw : w % 16 = 0) : decodeLast group bytes = .ok [UInt8.ofNat (v * 4 + w / 16)] := by
  simp [decodeLast, hne, hscan, hw, pure, Except.pure, bind, Except.bind]

theorem decodeLast_of_three
    (hscan : scanLast group 0 none bytes = .ok ([(p, v), (q, w), (r, x)], 1)) (hx : x % 4 = 0) :
    decodeLast group bytes =
      .ok [UInt8.ofNat (v * 4 + w / 16), UInt8.ofNat (w % 16 * 16 + x / 4)] := by
  simp [decodeLast, hne, hscan, hx, pure, Except.pure, bind, Except.bind]

theorem decodeLast_of_four
    (hscan : scanLast group 0 none bytes = .ok ([(p, v), (q, w), (r, x), (s, y)], 0)) :
    decodeLast group bytes =
      .ok [UInt8.ofNat (v * 4 + w / 16), UInt8.ofNat (w % 16 * 16 + x / 4),
        UInt8.ofNat (x % 4 * 64 + y)] := by
  simp [decodeLast, hne, hscan, pure, Except.pure, bind, Except.bind]

end Last

theorem decodeLast_one : decodeLast group (encodeBytes [a]) = .ok [a] := by
  have ha := a.toNat_lt
  have h0 : a.toNat / 4 < 64 := by omega
  have h1 : a.toNat % 4 * 16 < 64 := by omega
  have hscan : scanLast group 0 none (encodeBytes [a]) =
      .ok ([(symbolOf (a.toNat / 4), a.toNat / 4),
        (symbolOf (a.toNat % 4 * 16), a.toNat % 4 * 16)], 2) := by
    rw [encodeBytes, scanLast_symbolOf h0, scanLast_symbolOf h1,
      (scanLast_pads 2 (by omega) none).2]
    rfl
  rw [decodeLast_of_two rfl hscan (by omega), eq_of_bits (a := a) (by omega)]

theorem decodeLast_two : decodeLast group (encodeBytes [a, b]) = .ok [a, b] := by
  have ha := a.toNat_lt
  have hb := b.toNat_lt
  have h0 : a.toNat / 4 < 64 := by omega
  have h1 : a.toNat % 4 * 16 + b.toNat / 16 < 64 := by omega
  have h2 : b.toNat % 16 * 4 < 64 := by omega
  have hscan : scanLast group 0 none (encodeBytes [a, b]) =
      .ok ([(symbolOf (a.toNat / 4), a.toNat / 4),
        (symbolOf (a.toNat % 4 * 16 + b.toNat / 16), a.toNat % 4 * 16 + b.toNat / 16),
        (symbolOf (b.toNat % 16 * 4), b.toNat % 16 * 4)], 1) := by
    rw [encodeBytes, scanLast_symbolOf h0, scanLast_symbolOf h1, scanLast_symbolOf h2,
      (scanLast_pads 3 (by omega) none).1]
    rfl
  rw [decodeLast_of_three rfl hscan (by omega), eq_of_bits (a := a) (by omega),
    eq_of_bits (a := b) (by omega)]

theorem bits_of_group (a b c : UInt8) :
    UInt8.ofNat (a.toNat / 4 * 4 + (a.toNat % 4 * 16 + b.toNat / 16) / 16) = a ∧
      UInt8.ofNat ((a.toNat % 4 * 16 + b.toNat / 16) % 16 * 16 +
        (b.toNat % 16 * 4 + c.toNat / 64) / 4) = b ∧
      UInt8.ofNat ((b.toNat % 16 * 4 + c.toNat / 64) % 4 * 64 + c.toNat % 64) = c := by
  have ha := a.toNat_lt
  have hb := b.toNat_lt
  have hc := c.toNat_lt
  exact ⟨eq_of_bits (by omega), eq_of_bits (by omega), eq_of_bits (by omega)⟩

theorem values_of_group (a b c : UInt8) :
    a.toNat / 4 < 64 ∧ a.toNat % 4 * 16 + b.toNat / 16 < 64 ∧
      b.toNat % 16 * 4 + c.toNat / 64 < 64 ∧ c.toNat % 64 < 64 := by
  have ha := a.toNat_lt
  have hb := b.toNat_lt
  have hc := c.toNat_lt
  omega

theorem decodeLast_three : decodeLast group (encodeBytes [a, b, c]) = .ok [a, b, c] := by
  obtain ⟨h0, h1, h2, h3⟩ := values_of_group a b c
  obtain ⟨hbits, hbits', hbits''⟩ := bits_of_group a b c
  have hscan : scanLast group 0 none (encodeBytes [a, b, c]) =
      .ok ([(symbolOf (a.toNat / 4), a.toNat / 4),
        (symbolOf (a.toNat % 4 * 16 + b.toNat / 16), a.toNat % 4 * 16 + b.toNat / 16),
        (symbolOf (b.toNat % 16 * 4 + c.toNat / 64), b.toNat % 16 * 4 + c.toNat / 64),
        (symbolOf (c.toNat % 64), c.toNat % 64)], 0) := by
    rw [encodeBytes, encodeBytes, scanLast_symbolOf h0, scanLast_symbolOf h1,
      scanLast_symbolOf h2, scanLast_symbolOf h3]
    rfl
  rw [decodeLast_of_four rfl hscan, hbits, hbits', hbits'']

/-! ### All groups -/

/-- The groups of symbols that are written are read as the bytes. -/
theorem decodeGroups_encodeBytes (bytes : List UInt8) (group : Nat) :
    decodeGroups group (encodeBytes bytes) = .ok bytes := by
  match bytes with
  | [] => rfl
  | [a] => exact decodeLast_one
  | [a, b] => exact decodeLast_two
  | [a, b, c] => exact decodeLast_three
  | a :: b :: c :: d :: rest =>
    obtain ⟨h0, h1, h2, h3⟩ := values_of_group a b c
    obtain ⟨hbits, hbits', hbits''⟩ := bits_of_group a b c
    have ih := decodeGroups_encodeBytes (d :: rest) (group + 4)
    obtain ⟨e, es, he⟩ : ∃ e es, encodeBytes (d :: rest) = e :: es := by
      match rest with
      | [] | [_] | _ :: _ :: _ => exact ⟨_, _, rfl⟩
    rw [he] at ih
    rw [encodeBytes, he, decodeGroups, symbolAt_symbolOf h0, symbolAt_symbolOf h1,
      symbolAt_symbolOf h2, symbolAt_symbolOf h3, ih]
    show Except.ok (_ :: _ :: _ :: _) = _
    rw [hbits, hbits', hbits'']

theorem length_encodeBytes (bytes : List UInt8) : (encodeBytes bytes).length % 4 = 0 := by
  match bytes with
  | [] => rfl
  | [_] => simp [encodeBytes]
  | [_, _] => simp [encodeBytes]
  | a :: b :: c :: rest =>
    have ih := length_encodeBytes rest
    simp only [encodeBytes, List.length_cons]
    omega

theorem decodeBytes_encodeBytes (bytes : List UInt8) :
    decodeBytes (encodeBytes bytes) = .ok bytes := by
  unfold decodeBytes
  rw [length_encodeBytes]
  exact decodeGroups_encodeBytes bytes 0

/-! ### Texts -/

/-- The symbols that are written are ASCII. -/
theorem toNat_lt_of_mem_encodeBytes {bytes : List UInt8} {x : UInt8}
    (h : x ∈ encodeBytes bytes) : x.toNat < 128 := by
  have hsymbol : ∀ v < 64, x = symbolOf v → x.toNat < 128 := by
    rintro v hv rfl
    exact (symbolOf_spec v hv).2.2
  have hpad : x = pad → x.toNat < 128 := by
    rintro rfl
    decide
  match bytes with
  | [] => cases h
  | [a] =>
    have ha := a.toNat_lt
    simp only [encodeBytes, List.mem_cons, List.not_mem_nil, or_false] at h
    rcases h with h | h | h | h
    · exact hsymbol _ (by omega) h
    · exact hsymbol _ (by omega) h
    · exact hpad h
    · exact hpad h
  | [a, b] =>
    have ha := a.toNat_lt
    have hb := b.toNat_lt
    simp only [encodeBytes, List.mem_cons, List.not_mem_nil, or_false] at h
    rcases h with h | h | h | h
    · exact hsymbol _ (by omega) h
    · exact hsymbol _ (by omega) h
    · exact hsymbol _ (by omega) h
    · exact hpad h
  | a :: b :: c :: rest =>
    obtain ⟨h0, h1, h2, h3⟩ := values_of_group a b c
    simp only [encodeBytes, List.mem_cons] at h
    rcases h with h | h | h | h | h
    · exact hsymbol _ h0 h
    · exact hsymbol _ h1 h
    · exact hsymbol _ h2 h
    · exact hsymbol _ h3 h
    · exact toNat_lt_of_mem_encodeBytes h

theorem utf8EncodeChar_ofNat {x : UInt8} (h : x.toNat < 128) :
    String.utf8EncodeChar (Char.ofNat x.toNat) = [x] := by
  have hvalid : x.toNat.isValidChar := .inl (by omega)
  have hval : (Char.ofNat x.toNat).val.toNat = x.toNat := by
    rw [Char.ofNat, dif_pos hvalid]
    rfl
  unfold String.utf8EncodeChar
  dsimp only
  rw [hval, if_pos (show x.toNat ≤ 0x7f by omega), UInt8.ofNat_toNat]

theorem toList_loop (bytes : ByteArray) (i : Nat) (acc : List UInt8) :
    ByteArray.toList.loop bytes i acc = acc.reverse ++ bytes.data.toList.drop i := by
  fun_induction ByteArray.toList.loop bytes i acc with
  | case1 i acc hi ih =>
    have hlt : i < bytes.data.toList.length := hi
    have hget : bytes.get! i = bytes.data.toList[i] := getElem!_pos bytes.data i hi
    rw [ih, List.drop_eq_getElem_cons hlt, List.reverse_cons, List.append_assoc, hget]
    rfl
  | case2 i acc hi =>
    have hle : bytes.data.toList.length ≤ i := Nat.le_of_not_lt hi
    rw [List.drop_eq_nil_of_le hle, List.append_nil]

/-- The bytes of a text of ASCII characters. -/
theorem toUTF8_ofList {bytes : List UInt8} (h : ∀ x ∈ bytes, x.toNat < 128) :
    (String.ofList (bytes.map fun b => Char.ofNat b.toNat)).toUTF8.toList = bytes := by
  have hbytes : (bytes.map fun b => Char.ofNat b.toNat).flatMap String.utf8EncodeChar = bytes := by
    rw [List.flatMap_map]
    exact (List.flatMap_congr fun x hx => utf8EncodeChar_ofNat (h x hx)).trans
      (List.flatMap_singleton' bytes)
  rw [String.toUTF8_eq_toByteArray, String.toByteArray_ofList, List.utf8Encode, hbytes,
    ByteArray.toList, toList_loop, List.reverse_nil, List.nil_append, List.drop_zero,
    List.toList_data_toByteArray]

/-- Reading undoes writing. -/
theorem decode_encode (bytes : List UInt8) : decode (encode bytes) = .ok bytes := by
  rw [decode, encode, toUTF8_ofList fun x hx => toNat_lt_of_mem_encodeBytes hx]
  exact decodeBytes_encodeBytes bytes

/-! ### What is read was written -/

/-- Whatever has a value is the symbol that is written for it. -/
theorem symbolOf_of_valueOf? (h : valueOf? b = some v) : symbolOf v = b ∧ v < 64 := by
  have hall : ∀ n < 256, ∀ v ∈ valueOf? (UInt8.ofNat n), symbolOf v = UInt8.ofNat n ∧ v < 64 := by
    decide +kernel
  have hb := hall b.toNat b.toNat_lt v
  rw [UInt8.ofNat_toNat] at hb
  exact hb h

theorem symbolAt_eq_ok {offset : Nat} (h : symbolAt offset b = .ok v) :
    symbolOf v = b ∧ v < 64 := by
  rw [symbolAt] at h
  cases hv : valueOf? b with
  | none =>
    rw [hv] at h
    cases h
  | some w =>
    rw [hv] at h
    cases h
    exact symbolOf_of_valueOf? hv

/-- Behind padding only padding is read. -/
theorem scanLast_pad_eq_ok {i n : Nat} {padded : Option Nat} {symbols : List (UInt8 × Nat)}
    {rest : List UInt8} (h : scanLast group i padded (pad :: rest) = .ok (symbols, n)) :
    ∃ first k, scanLast group (i + 1) (some first) rest = .ok (symbols, k) ∧ n = k + 1 := by
  have hscan : ∀ first, (scanLast group (i + 1) (some first) rest).map
      (fun s => (s.1, s.2 + 1)) = .ok (symbols, n) →
        ∃ k, scanLast group (i + 1) (some first) rest = .ok (symbols, k) ∧ n = k + 1 := by
    intro first h
    cases hrest : scanLast group (i + 1) (some first) rest with
    | error e =>
      rw [hrest] at h
      cases h
    | ok s =>
      rw [hrest] at h
      cases h
      exact ⟨s.2, rfl, rfl⟩
  cases padded with
  | none =>
    rw [scanLast, if_pos rfl] at h
    split_ifs at h
    exact ⟨_, hscan _ h⟩
  | some first =>
    rw [scanLast, if_pos rfl] at h
    split_ifs at h
    exact ⟨_, hscan _ h⟩

/-- A symbol is read where no padding has been read. -/
theorem scanLast_symbol_eq_ok {i n : Nat} {padded : Option Nat} {symbols : List (UInt8 × Nat)}
    {rest : List UInt8} (hb : b ≠ pad)
    (h : scanLast group i padded (b :: rest) = .ok (symbols, n)) :
    padded = none ∧ ∃ v symbols', symbolOf v = b ∧ v < 64 ∧
      scanLast group (i + 1) none rest = .ok (symbols', n) ∧ symbols = (b, v) :: symbols' := by
  cases padded with
  | some first =>
    rw [scanLast, if_neg hb] at h
    cases h
  | none =>
    rw [scanLast, if_neg hb] at h
    obtain ⟨v, hv, h⟩ := bind_eq_ok_iff.mp h
    obtain ⟨⟨symbols', n'⟩, hrest, heq⟩ := bind_pure_eq_ok_iff.mp h
    cases heq
    obtain ⟨hsymbol, hlt⟩ := symbolAt_eq_ok hv
    exact ⟨rfl, v, symbols', hsymbol, hlt, hrest, rfl⟩

/-- The last group consists of symbols with padding behind them. -/
theorem scanLast_eq_ok {bytes : List UInt8} {i n : Nat} {padded : Option Nat}
    {symbols : List (UInt8 × Nat)} (h : scanLast group i padded bytes = .ok (symbols, n)) :
    bytes = symbols.map Prod.fst ++ List.replicate n pad ∧
      (∀ s ∈ symbols, symbolOf s.2 = s.1 ∧ s.2 < 64) ∧ (padded ≠ none → symbols = []) := by
  induction bytes generalizing i padded symbols n with
  | nil =>
    rw [scanLast] at h
    cases h
    simp
  | cons b bytes ih =>
    by_cases hpad : b = pad
    · subst hpad
      obtain ⟨first, k, hrest, rfl⟩ := scanLast_pad_eq_ok h
      obtain ⟨hbytes, -, hnone⟩ := ih hrest
      obtain rfl := hnone (Option.some_ne_none first)
      simpa [List.replicate_succ] using hbytes
    · obtain ⟨rfl, v, symbols', hsymbol, hlt, hrest, rfl⟩ := scanLast_symbol_eq_ok hpad h
      obtain ⟨hbytes, hvalues, -⟩ := ih hrest
      refine ⟨by simp [← hbytes], ?_, by simp⟩
      exact List.forall_mem_cons.mpr ⟨⟨hsymbol, hlt⟩, hvalues⟩

/-- The bits of three bytes are the values that they were read from. -/
theorem values_of_bits {v w x y : Nat} (hv : v < 64) (hw : w < 64) (hx : x < 64) (hy : y < 64) :
    (UInt8.ofNat (v * 4 + w / 16)).toNat = v * 4 + w / 16 ∧
      (UInt8.ofNat (w % 16 * 16 + x / 4)).toNat = w % 16 * 16 + x / 4 ∧
      (UInt8.ofNat (x % 4 * 64 + y)).toNat = x % 4 * 64 + y := by
  have hsize : UInt8.size = 256 := rfl
  refine ⟨UInt8.toNat_ofNat_of_lt' ?_, UInt8.toNat_ofNat_of_lt' ?_, UInt8.toNat_ofNat_of_lt' ?_⟩
  all_goals omega

/-- Four symbols are those that are written for the bytes they are read as, whatever follows. -/
theorem encodeBytes_of_values {v w x y : Nat} (hv : v < 64) (hw : w < 64) (hx : x < 64)
    (hy : y < 64) (rest : List UInt8) :
    encodeBytes (UInt8.ofNat (v * 4 + w / 16) :: UInt8.ofNat (w % 16 * 16 + x / 4) ::
        UInt8.ofNat (x % 4 * 64 + y) :: rest) =
      symbolOf v :: symbolOf w :: symbolOf x :: symbolOf y :: encodeBytes rest := by
  obtain ⟨ha, hb, hc⟩ := values_of_bits hv hw hx hy
  have hvalues : (v * 4 + w / 16) / 4 = v ∧
      (v * 4 + w / 16) % 4 * 16 + (w % 16 * 16 + x / 4) / 16 = w ∧
      (w % 16 * 16 + x / 4) % 16 * 4 + (x % 4 * 64 + y) / 64 = x ∧ (x % 4 * 64 + y) % 64 = y := by
    omega
  rw [encodeBytes, ha, hb, hc, hvalues.1, hvalues.2.1, hvalues.2.2.1, hvalues.2.2.2]

/-- Three symbols of the last group, if the bits behind the second byte are zero. -/
theorem encodeBytes_of_three {v w x : Nat} (hv : v < 64) (hw : w < 64) (hx : x < 64)
    (hzero : x % 4 = 0) :
    encodeBytes [UInt8.ofNat (v * 4 + w / 16), UInt8.ofNat (w % 16 * 16 + x / 4)] =
      [symbolOf v, symbolOf w, symbolOf x, pad] := by
  obtain ⟨ha, hb, -⟩ := values_of_bits hv hw hx (Nat.zero_lt_succ 63)
  have hvalues : (v * 4 + w / 16) / 4 = v ∧
      (v * 4 + w / 16) % 4 * 16 + (w % 16 * 16 + x / 4) / 16 = w ∧
      (w % 16 * 16 + x / 4) % 16 * 4 = x := by omega
  rw [encodeBytes, ha, hb, hvalues.1, hvalues.2.1, hvalues.2.2]

/-- Two symbols of the last group, if the bits behind the first byte are zero. -/
theorem encodeBytes_of_two {v w : Nat} (hv : v < 64) (hw : w < 64) (hzero : w % 16 = 0) :
    encodeBytes [UInt8.ofNat (v * 4 + w / 16)] = [symbolOf v, symbolOf w, pad, pad] := by
  obtain ⟨ha, -⟩ := values_of_bits hv hw (Nat.zero_lt_succ 63) (Nat.zero_lt_succ 63)
  have hvalues : (v * 4 + w / 16) / 4 = v ∧ (v * 4 + w / 16) % 4 * 16 = w := by omega
  rw [encodeBytes, ha, hvalues.1, hvalues.2]

/-- A last group that is read is the one that is written for its bytes. -/
theorem encodeBytes_of_decodeLast {bytes out : List UInt8} (hlen : bytes.length ≤ 4)
    (h : decodeLast group bytes = .ok out) : encodeBytes out = bytes := by
  by_cases hempty : bytes = []
  · subst hempty
    cases h
    rfl
  have hne : bytes.isEmpty = false := List.isEmpty_eq_false_iff.mpr hempty
  rw [decodeLast, hne] at h
  obtain ⟨⟨symbols, n⟩, hscan, h⟩ := bind_eq_ok_iff.mp h
  obtain ⟨hbytes, hvalues, -⟩ := scanLast_eq_ok hscan
  have hsum : symbols.length + n = bytes.length := by simp [hbytes]
  dsimp only at h
  by_cases hshort : symbols.length < 2
  · rw [if_pos hshort] at h
    cases h
  rw [if_neg hshort] at h
  by_cases hpadding : (symbols.length + n) % 4 ≠ 0
  · rw [if_pos hpadding] at h
    cases h
  rw [if_neg hpadding] at h
  have hn : symbols.length + n = 4 := by omega
  -- the group has two, three or four symbols
  match symbols with
  | [] | [_] => simp at hshort
  | [(p, v), (q, w)] =>
    simp only [List.length_cons, List.length_nil] at hn
    obtain rfl : n = 2 := by omega
    simp only [List.forall_mem_cons] at hvalues
    obtain ⟨⟨rfl, hv⟩, ⟨rfl, hw⟩, -⟩ := hvalues
    dsimp only at h
    split_ifs at h with hzero
    · cases h
    · cases h
      rw [encodeBytes_of_two hv hw (by omega), hbytes]
      rfl
  | [(p, v), (q, w), (r, x)] =>
    simp only [List.length_cons, List.length_nil] at hn
    obtain rfl : n = 1 := by omega
    simp only [List.forall_mem_cons] at hvalues
    obtain ⟨⟨rfl, hv⟩, ⟨rfl, hw⟩, ⟨rfl, hx⟩, -⟩ := hvalues
    dsimp only at h
    split_ifs at h with hzero
    · cases h
    · cases h
      rw [encodeBytes_of_three hv hw hx (by omega), hbytes]
      rfl
  | [(p, v), (q, w), (r, x), (s, y)] =>
    simp only [List.length_cons, List.length_nil] at hn
    obtain rfl : n = 0 := by omega
    simp only [List.forall_mem_cons] at hvalues
    obtain ⟨⟨rfl, hv⟩, ⟨rfl, hw⟩, ⟨rfl, hx⟩, ⟨rfl, hy⟩, -⟩ := hvalues
    cases h
    rw [encodeBytes_of_values hv hw hx hy, hbytes]
    rfl
  | _ :: _ :: _ :: _ :: _ :: _ =>
    simp only [List.length_cons] at hn
    omega

/-- Groups that are read are those that are written for their bytes. -/
theorem encodeBytes_of_decodeGroups {bytes out : List UInt8}
    (h : decodeGroups group bytes = .ok out) : encodeBytes out = bytes := by
  fun_induction decodeGroups group bytes generalizing out with
  | case1 group a b c d e rest ih =>
    simp only [bind_eq_ok_iff, pure_eq_ok_iff] at h
    obtain ⟨v, ha, w, hb, x, hc, y, hd, out, hrest, rfl⟩ := h
    obtain ⟨rfl, hv⟩ := symbolAt_eq_ok ha
    obtain ⟨rfl, hw⟩ := symbolAt_eq_ok hb
    obtain ⟨rfl, hx⟩ := symbolAt_eq_ok hc
    obtain ⟨rfl, hy⟩ := symbolAt_eq_ok hd
    rw [encodeBytes_of_values hv hw hx hy, ih hrest]
  | case2 group last hlast =>
    refine encodeBytes_of_decodeLast ?_ h
    match last with
    | [] | [_] | [_, _] | [_, _, _] | [_, _, _, _] => simp
    | a :: b :: c :: d :: e :: rest => exact absurd rfl (hlast a b c d e rest)

/-- Bytes that are read are those that are written. -/
theorem encodeBytes_of_decodeBytes {bytes out : List UInt8} (h : decodeBytes bytes = .ok out) :
    encodeBytes out = bytes := by
  have hgroups : decodeGroups 0 bytes = .ok out := by
    unfold decodeBytes at h
    split at h
    · split_ifs at h
      exact h
    · exact h
  exact encodeBytes_of_decodeGroups hgroups

theorem toList_injective : Function.Injective ByteArray.toList := by
  intro x y h
  have hlist : ∀ z : ByteArray, z.toList = z.data.toList := by
    intro z
    rw [ByteArray.toList, toList_loop, List.reverse_nil, List.nil_append, List.drop_zero]
  rw [hlist, hlist] at h
  exact ByteArray.ext (Array.toList_inj.mp h)

/-- Only texts that are written are read. -/
theorem encode_of_decode {text : String} {bytes : List UInt8} (h : decode text = .ok bytes) :
    encode bytes = text := by
  have hbytes := encodeBytes_of_decodeBytes h
  have hutf8 : (encode bytes).toUTF8.toList = text.toUTF8.toList := by
    rw [encode, toUTF8_ofList fun x hx => toNat_lt_of_mem_encodeBytes hx, hbytes]
  exact String.toByteArray_inj.mp (toList_injective hutf8)

/-- The text of a byte sequence is the only one that is read as it. -/
theorem decode_eq_ok_iff {text : String} {bytes : List UInt8} :
    decode text = .ok bytes ↔ text = encode bytes := by
  constructor
  · exact fun h => (encode_of_decode h).symm
  · rintro rfl
    exact decode_encode bytes

end Adl.Base64
