import CodeCub.Python.Json

/-!
# UTF-8

`str.encode("utf-8")` and `bytes.decode("utf-8")`.  A reader that meets the end of the
bytes inside a code point says so: this is Python's "unexpected end of data".
-/

namespace Python

abbrev Bytes := List UInt8

def encodeChar (c : Char) : Bytes :=
  let n := c.toNat
  if n < 0x80 then [UInt8.ofNat n]
  else if n < 0x800 then [UInt8.ofNat (0xc0 + n / 64), UInt8.ofNat (0x80 + n % 64)]
  else if n < 0x10000 then
    [UInt8.ofNat (0xe0 + n / 4096), UInt8.ofNat (0x80 + n / 64 % 64), UInt8.ofNat (0x80 + n % 64)]
  else
    [UInt8.ofNat (0xf0 + n / 262144), UInt8.ofNat (0x80 + n / 4096 % 64),
      UInt8.ofNat (0x80 + n / 64 % 64), UInt8.ofNat (0x80 + n % 64)]

/-- `text.encode("utf-8")`. -/
def encodeUtf8 (text : Str) : Bytes := text.flatMap encodeChar

/-- A continuation byte. -/
def isTail (b : UInt8) : Bool := 0x80 ≤ b.toNat && b.toNat ≤ 0xbf

/-- What may follow the first byte of a code point: no overlong form, no surrogate and
nothing above `0x10ffff`. -/
def isSecond (first second : UInt8) : Bool :=
  isTail second &&
    match first.toNat with
    | 0xe0 => 0xa0 ≤ second.toNat
    | 0xed => second.toNat ≤ 0x9f
    | 0xf0 => 0x90 ≤ second.toNat
    | 0xf4 => second.toNat ≤ 0x8f
    | _ => true

def pushChar (n : Nat) (scanned : Option (Str × Bool)) : Option (Str × Bool) :=
  scanned.map fun result => (Char.ofNat n :: result.1, result.2)

/-- The text of the bytes, and whether they end inside a code point; `none` where the
bytes are not UTF-8. -/
def scanUtf8 : Bytes → Option (Str × Bool)
  | [] => some ([], false)
  | a :: rest =>
      let n := a.toNat
      if n < 0x80 then pushChar n (scanUtf8 rest)
      else if 0xc2 ≤ n ∧ n ≤ 0xdf then
        match rest with
        | [] => some ([], true)
        | b :: rest =>
            if isTail b then pushChar ((n - 0xc0) * 64 + (b.toNat - 0x80)) (scanUtf8 rest)
            else none
      else if 0xe0 ≤ n ∧ n ≤ 0xef then
        match rest with
        | [] => some ([], true)
        | [b] => if isSecond a b then some ([], true) else none
        | b :: c :: rest =>
            if isSecond a b ∧ isTail c then
              pushChar ((n - 0xe0) * 4096 + (b.toNat - 0x80) * 64 + (c.toNat - 0x80))
                (scanUtf8 rest)
            else none
      else if 0xf0 ≤ n ∧ n ≤ 0xf4 then
        match rest with
        | [] => some ([], true)
        | [b] => if isSecond a b then some ([], true) else none
        | [b, c] => if isSecond a b ∧ isTail c then some ([], true) else none
        | b :: c :: d :: rest =>
            if isSecond a b ∧ isTail c ∧ isTail d then
              pushChar ((n - 0xf0) * 262144 + (b.toNat - 0x80) * 4096 + (c.toNat - 0x80) * 64 +
                (d.toNat - 0x80)) (scanUtf8 rest)
            else none
      else none

theorem toNat_ofNat {n : Nat} (h : n < 256) : (UInt8.ofNat n).toNat = n := by
  rw [UInt8.toNat_ofNat', Nat.mod_eq_of_lt (by simpa using h)]

theorem isTail_ofNat {n : Nat} (h : n < 64) : isTail (UInt8.ofNat (0x80 + n)) = true := by
  rw [isTail, toNat_ofNat (by omega)]
  simp
  omega

theorem char_range (c : Char) : c.toNat < 0xd800 ∨ (0xdfff < c.toNat ∧ c.toNat < 0x110000) :=
  c.valid

theorem scanUtf8_encodeChar (c : Char) (rest : Bytes) :
    scanUtf8 (encodeChar c ++ rest) =
      (scanUtf8 rest).map fun result => (c :: result.1, result.2) := by
  have hrange := char_range c
  have hpush : ∀ n, n = c.toNat → pushChar n (scanUtf8 rest) =
      (scanUtf8 rest).map fun result => (c :: result.1, result.2) := by
    rintro n rfl
    rw [pushChar, Char.ofNat_toNat]
  simp only [encodeChar]
  split
  · next h =>
      rw [List.singleton_append, scanUtf8.eq_def]
      simp only [toNat_ofNat (n := c.toNat) (by omega), h, if_true]
      exact hpush _ rfl
  split
  · next h1 h2 =>
      have hfirst := toNat_ofNat (n := 0xc0 + c.toNat / 64) (by omega)
      have hsecond := toNat_ofNat (n := 0x80 + c.toNat % 64) (by omega)
      rw [List.cons_append, List.singleton_append, scanUtf8.eq_def]
      simp only [hfirst, hsecond, isTail_ofNat (n := c.toNat % 64) (by omega), if_true]
      rw [if_neg (by omega), if_pos (by omega)]
      exact hpush _ (by omega)
  split
  · next h1 h2 h3 =>
      have hfirst := toNat_ofNat (n := 0xe0 + c.toNat / 4096) (by omega)
      have hsecond := toNat_ofNat (n := 0x80 + c.toNat / 64 % 64) (by omega)
      have hthird := toNat_ofNat (n := 0x80 + c.toNat % 64) (by omega)
      have hok : isSecond (UInt8.ofNat (0xe0 + c.toNat / 4096))
          (UInt8.ofNat (0x80 + c.toNat / 64 % 64)) = true := by
        rw [isSecond, isTail_ofNat (by omega), hfirst, hsecond]
        split
        · simp
          omega
        · simp
          omega
        · omega
        · omega
        · rfl
      simp only [List.cons_append, List.nil_append]
      rw [scanUtf8.eq_def]
      simp only [hfirst, hsecond, hthird, hok, isTail_ofNat (n := c.toNat % 64) (by omega)]
      rw [if_neg (by omega), if_neg (by omega), if_pos (by omega), if_pos ⟨trivial, trivial⟩]
      exact hpush _ (by omega)
  · next h1 h2 h3 =>
      have hfirst := toNat_ofNat (n := 0xf0 + c.toNat / 262144) (by omega)
      have hsecond := toNat_ofNat (n := 0x80 + c.toNat / 4096 % 64) (by omega)
      have hthird := toNat_ofNat (n := 0x80 + c.toNat / 64 % 64) (by omega)
      have hfourth := toNat_ofNat (n := 0x80 + c.toNat % 64) (by omega)
      have hok : isSecond (UInt8.ofNat (0xf0 + c.toNat / 262144))
          (UInt8.ofNat (0x80 + c.toNat / 4096 % 64)) = true := by
        rw [isSecond, isTail_ofNat (by omega), hfirst, hsecond]
        split
        · omega
        · omega
        · simp
          omega
        · simp
          omega
        · rfl
      simp only [List.cons_append, List.nil_append]
      rw [scanUtf8.eq_def]
      simp only [hfirst, hsecond, hthird, hfourth, hok,
        isTail_ofNat (n := c.toNat / 64 % 64) (by omega), isTail_ofNat (n := c.toNat % 64) (by omega)]
      rw [if_neg (by omega), if_neg (by omega), if_neg (by omega), if_pos (by omega),
        if_pos ⟨trivial, trivial, trivial⟩]
      exact hpush _ (by omega)

/-- What was encoded is decoded. -/
theorem scanUtf8_encodeUtf8 (text : Str) : scanUtf8 (encodeUtf8 text) = some (text, false) := by
  induction text with
  | nil => rfl
  | cons c text ih =>
      show scanUtf8 (encodeChar c ++ encodeUtf8 text) = _
      rw [scanUtf8_encodeChar, ih]
      rfl

theorem encodeUtf8_append (a b : Str) : encodeUtf8 (a ++ b) = encodeUtf8 a ++ encodeUtf8 b :=
  List.flatMap_append

/-! ## What was decoded -/

theorem ofNat_eq_of_toNat {b : UInt8} {n : Nat} (h : n = b.toNat) : UInt8.ofNat n = b := by
  rw [h, UInt8.ofNat_toNat]

theorem toNat_charOfNat {n : Nat} (h : n < 0xd800 ∨ (0xdfff < n ∧ n < 0x110000)) :
    (Char.ofNat n).toNat = n := by
  have hvalid : n.isValidChar := h
  rw [Char.ofNat, dif_pos hvalid]
  rfl

theorem isTail_iff {b : UInt8} : isTail b = true ↔ 0x80 ≤ b.toNat ∧ b.toNat ≤ 0xbf := by
  rw [isTail, Bool.and_eq_true, decide_eq_true_iff, decide_eq_true_iff]

theorem pushChar_eq_some {n : Nat} {scanned : Option (Str × Bool)} {text : Str} {cut : Bool}
    (h : pushChar n scanned = some (text, cut)) :
    ∃ rest, scanned = some (rest, cut) ∧ text = Char.ofNat n :: rest := by
  obtain ⟨⟨rest, cut'⟩, hscanned, hpair⟩ := Option.map_eq_some_iff.mp h
  cases hpair
  exact ⟨rest, hscanned, rfl⟩

theorem encodeChar_one {a : UInt8} (ha : a.toNat < 0x80) :
    encodeChar (Char.ofNat a.toNat) = [a] := by
  have hn := toNat_charOfNat (n := a.toNat) (by omega)
  simp only [encodeChar, hn]
  rw [if_pos ha, ofNat_eq_of_toNat rfl]

theorem encodeChar_two {a b : UInt8} (ha : 0xc2 ≤ a.toNat ∧ a.toNat ≤ 0xdf)
    (hb : isTail b = true) :
    encodeChar (Char.ofNat ((a.toNat - 0xc0) * 64 + (b.toNat - 0x80))) = [a, b] := by
  rw [isTail_iff] at hb
  have hn := toNat_charOfNat (n := (a.toNat - 0xc0) * 64 + (b.toNat - 0x80)) (by omega)
  simp only [encodeChar, hn]
  rw [if_neg (by omega), if_pos (by omega), ofNat_eq_of_toNat (b := a) (by omega),
    ofNat_eq_of_toNat (b := b) (by omega)]

theorem encodeChar_three {a b c : UInt8} (ha : 0xe0 ≤ a.toNat ∧ a.toNat ≤ 0xef)
    (hb : isSecond a b = true) (hc : isTail c = true) :
    encodeChar (Char.ofNat ((a.toNat - 0xe0) * 4096 + (b.toNat - 0x80) * 64 +
      (c.toNat - 0x80))) = [a, b, c] := by
  rw [isSecond, Bool.and_eq_true, isTail_iff] at hb
  rw [isTail_iff] at hc
  -- no overlong form and no surrogate
  have hlow : a.toNat = 0xe0 → 0xa0 ≤ b.toNat := by
    intro hfirst
    have := hb.2
    rw [hfirst] at this
    simpa using this
  have hhigh : a.toNat = 0xed → b.toNat ≤ 0x9f := by
    intro hfirst
    have := hb.2
    rw [hfirst] at this
    simpa using this
  have hn := toNat_charOfNat (n := (a.toNat - 0xe0) * 4096 + (b.toNat - 0x80) * 64 +
    (c.toNat - 0x80)) (by omega)
  simp only [encodeChar, hn]
  rw [if_neg (by omega), if_neg (by omega), if_pos (by omega),
    ofNat_eq_of_toNat (b := a) (by omega), ofNat_eq_of_toNat (b := b) (by omega),
    ofNat_eq_of_toNat (b := c) (by omega)]

theorem encodeChar_four {a b c d : UInt8} (ha : 0xf0 ≤ a.toNat ∧ a.toNat ≤ 0xf4)
    (hb : isSecond a b = true) (hc : isTail c = true) (hd : isTail d = true) :
    encodeChar (Char.ofNat ((a.toNat - 0xf0) * 262144 + (b.toNat - 0x80) * 4096 +
      (c.toNat - 0x80) * 64 + (d.toNat - 0x80))) = [a, b, c, d] := by
  rw [isSecond, Bool.and_eq_true, isTail_iff] at hb
  rw [isTail_iff] at hc hd
  have hlow : a.toNat = 0xf0 → 0x90 ≤ b.toNat := by
    intro hfirst
    have := hb.2
    rw [hfirst] at this
    simpa using this
  have hhigh : a.toNat = 0xf4 → b.toNat ≤ 0x8f := by
    intro hfirst
    have := hb.2
    rw [hfirst] at this
    simpa using this
  have hn := toNat_charOfNat (n := (a.toNat - 0xf0) * 262144 + (b.toNat - 0x80) * 4096 +
    (c.toNat - 0x80) * 64 + (d.toNat - 0x80)) (by omega)
  simp only [encodeChar, hn]
  rw [if_neg (by omega), if_neg (by omega), if_neg (by omega),
    ofNat_eq_of_toNat (b := a) (by omega), ofNat_eq_of_toNat (b := b) (by omega),
    ofNat_eq_of_toNat (b := c) (by omega), ofNat_eq_of_toNat (b := d) (by omega)]

theorem encodeUtf8_of_pushChar {n : Nat} {front rest : Bytes} {scanned : Option (Str × Bool)}
    {text : Str} (hfront : encodeChar (Char.ofNat n) = front)
    (hrest : ∀ {text : Str}, scanned = some (text, false) → encodeUtf8 text = rest)
    (h : pushChar n scanned = some (text, false)) : encodeUtf8 text = front ++ rest := by
  obtain ⟨later, hscanned, rfl⟩ := pushChar_eq_some h
  rw [← hfront, ← hrest hscanned]
  rfl

/-- What was decoded to the end is encoded as it was: UTF-8 has one form of every text. -/
theorem encodeUtf8_of_scanUtf8 {bytes : Bytes} {text : Str}
    (h : scanUtf8 bytes = some (text, false)) : encodeUtf8 text = bytes := by
  fun_induction scanUtf8 bytes generalizing text with
  | case1 =>
      cases h
      rfl
  | case2 a rest n hone =>
      rename_i ih
      exact encodeUtf8_of_pushChar (encodeChar_one hone) ih h
  | case4 a n _ ha b rest hb =>
      rename_i ih
      exact encodeUtf8_of_pushChar (encodeChar_two ha hb) ih h
  | case9 a n _ _ ha b c rest htail =>
      rename_i ih
      exact encodeUtf8_of_pushChar (encodeChar_three ha htail.1 htail.2) ih h
  | case16 a n _ _ _ ha b c d rest htail =>
      rename_i ih
      exact encodeUtf8_of_pushChar (encodeChar_four ha htail.1 htail.2.1 htail.2.2) ih h
  | _ => cases h

theorem encodeUtf8_injective {a b : Str} (h : encodeUtf8 a = encodeUtf8 b) : a = b := by
  have hscan := scanUtf8_encodeUtf8 a
  rw [h, scanUtf8_encodeUtf8] at hscan
  cases hscan
  rfl

/-! ## ASCII -/

def IsAscii (text : Str) : Prop := ∀ c ∈ text, c.toNat < 0x80

instance (text : Str) : Decidable (IsAscii text) :=
  inferInstanceAs (Decidable (∀ c ∈ text, c.toNat < 0x80))

/-- The bytes of an ASCII text are its characters. -/
theorem encodeUtf8_ascii {text : Str} (h : IsAscii text) :
    encodeUtf8 text = text.map fun c => UInt8.ofNat c.toNat := by
  induction text with
  | nil => rfl
  | cons c text ih =>
      have hc := h c List.mem_cons_self
      show encodeChar c ++ encodeUtf8 text = _
      rw [ih fun d hd => h d (List.mem_cons_of_mem _ hd), encodeChar]
      simp only [if_pos hc]
      rfl

/-- A prefix of the bytes of an ASCII text is the bytes of a prefix. -/
theorem encodeUtf8_take {text : Str} (h : IsAscii text) (n : Nat) :
    (encodeUtf8 text).take n = encodeUtf8 (text.take n) := by
  have htake : IsAscii (text.take n) := fun c hc => h c (List.mem_of_mem_take hc)
  rw [encodeUtf8_ascii h, encodeUtf8_ascii htake, List.map_take]

end Python
