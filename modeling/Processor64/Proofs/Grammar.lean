import Mathlib.Control.Basic
import Mathlib.Data.Option.Basic
import Processor64.Json.Parser

/-!
# The grammar of JSON texts

What a text of each value looks like, written down without the reader: the blanks, the escapes of
a string, the parts of a number, and lists and objects with blanks around all that is in them. The
reader accepts exactly these texts and returns the value that was written (`parse?_eq_some_iff`).
-/

namespace Processor64.Json

/-- The members of an object in the order of the text, each under its name as it is written. -/
abbrev Members := List (List StringPiece × Json)

/-! ## Blanks -/

/-- Characters that may stand between the parts of a value. -/
def Blanks (s : List Char) : Prop := ∀ c ∈ s, c ∈ [' ', '\t', '\n', '\r']

theorem isBlank_iff {c : Char} : isBlank c ↔ c ∈ [' ', '\t', '\n', '\r'] := by
  simp [isBlank, or_assoc]

theorem Blanks.skip {b : List Char} (h : Blanks b) (s : List Char) :
    skipBlank (b ++ s) = skipBlank s :=
  List.dropWhile_append_of_pos fun c hc => isBlank_iff.2 (h c hc)

theorem skipBlank_cons {c : Char} (h : isBlank c = false) (s : List Char) :
    skipBlank (c :: s) = c :: s :=
  List.dropWhile_cons_of_neg (by simp [h])

/-- A text is its blanks and what is left when they are skipped. -/
theorem exists_blanks (s : List Char) : ∃ b, Blanks b ∧ s = b ++ skipBlank s :=
  ⟨s.takeWhile isBlank, fun _ hc => isBlank_iff.1 (List.all_eq_true.1 List.all_takeWhile _ hc),
    List.takeWhile_append_dropWhile.symm⟩

/-! ## Strings -/

/-- The characters that follow a backslash alone, with what they stand for. -/
def shortEscapes : List (Char × Char) :=
  [('"', '"'), ('\\', '\\'), ('/', '/'), ('b', '\x08'), ('f', '\x0c'), ('n', '\n'), ('r', '\r'),
    ('t', '\t')]

/-- How a piece of a string is written: as it is, by a letter, or by four digits. -/
inductive PieceWritten : StringPiece → List Char → Prop where
  | plain {c : Char} (hc : 0x20 ≤ c.toNat) (hq : c ≠ '"') (hb : c ≠ '\\') :
      PieceWritten (.char c) [c]
  | short {e c : Char} (h : (e, c) ∈ shortEscapes) : PieceWritten (.char c) ['\\', e]
  | unit {a b c d : Char} {ds : List Nat} (h : [a, b, c, d].mapM (Numeral.digit? 16) = some ds) :
      PieceWritten (.unit (Numeral.ofDigits 16 ds)) ['\\', 'u', a, b, c, d]

/-- The text between the quotes of a string. -/
inductive StringWritten : List StringPiece → List Char → Prop where
  | nil : StringWritten [] []
  | cons {p : StringPiece} {ps : List StringPiece} {s t : List Char} (hp : PieceWritten p s)
      (hps : StringWritten ps t) : StringWritten (p :: ps) (s ++ t)

/-- The letters after a backslash are read as the table says. -/
theorem escaped?_eq_some_iff {e c : Char} : escaped? e = some c ↔ (e, c) ∈ shortEscapes := by
  constructor
  · intro h
    unfold escaped? at h
    split at h <;> simp_all [shortEscapes, eq_comm]
  · intro h
    simp only [shortEscapes, List.mem_cons, Prod.mk.injEq, List.not_mem_nil, or_false] at h
    rcases h with ⟨rfl, rfl⟩ | ⟨rfl, rfl⟩ | ⟨rfl, rfl⟩ | ⟨rfl, rfl⟩ | ⟨rfl, rfl⟩ | ⟨rfl, rfl⟩ |
      ⟨rfl, rfl⟩ | ⟨rfl, rfl⟩ <;> rfl

theorem not_short_unit (c : Char) : ('u', c) ∉ shortEscapes := by simp [shortEscapes]

/-- A piece that is written is read. -/
theorem PieceWritten.string? {p : StringPiece} {s : List Char} (h : PieceWritten p s)
    (rest : List Char) :
    Json.string? (s ++ rest) = (Json.string? rest).map fun (ps, r) => (p :: ps, r) := by
  cases h with
  | @plain c hc hq hb =>
    rw [List.singleton_append, Json.string?.eq_5 c rest hq (fun _ _ _ _ _ h => absurd h hb)
      (fun _ _ h => absurd h hb)]
    rcases Json.string? rest with _ | ⟨ps, r⟩ <;> simp [hc, hb]
  | @short e c h =>
    have he : e ≠ 'u' := fun he => not_short_unit c (he ▸ h)
    rw [List.cons_append, List.singleton_append,
      Json.string?.eq_4 e rest (fun _ _ _ _ _ h => absurd h he), escaped?_eq_some_iff.2 h]
    rcases Json.string? rest with _ | ⟨ps, r⟩ <;> simp
  | @unit a b c d ds h =>
    simp only [List.cons_append, List.nil_append, Json.string?.eq_3, unit?, h, Option.map_some]
    rcases Json.string? rest with _ | ⟨ps, r⟩ <;> simp

/-- A string that is written is read up to its closing quote. -/
theorem StringWritten.string? {ps : List StringPiece} {s : List Char} (h : StringWritten ps s)
    (rest : List Char) : Json.string? (s ++ '"' :: rest) = some (ps, rest) := by
  induction h with
  | nil => rw [List.nil_append, Json.string?.eq_2]
  | cons hp _ ih => rw [List.append_assoc, hp.string?, ih, Option.map_some]

/-- What is read as a string is one that is written. -/
theorem written_of_string? {s rest : List Char} {ps : List StringPiece}
    (h : string? s = some (ps, rest)) : ∃ t, StringWritten ps t ∧ s = t ++ '"' :: rest := by
  fun_induction string? s generalizing ps with
  | case1 => cases h
  | case2 s =>
    obtain ⟨rfl, rfl⟩ : [] = ps ∧ s = rest := by simpa using h
    exact ⟨[], .nil, rfl⟩
  | case3 a b c d s ih =>
    obtain ⟨u, hu, qs, hqs, rfl⟩ := by simpa [Option.bind_eq_some_iff] using h
    obtain ⟨ds, hds, rfl⟩ := Option.map_eq_some_iff.1 hu
    obtain ⟨t, ht, rfl⟩ := ih hqs
    exact ⟨_, .cons (.unit hds) ht, rfl⟩
  | case4 e s _ ih =>
    obtain ⟨c, hc, qs, hqs, rfl⟩ := by simpa [Option.bind_eq_some_iff] using h
    obtain ⟨t, ht, rfl⟩ := ih hqs
    exact ⟨_, .cons (.short (escaped?_eq_some_iff.1 hc)) ht, rfl⟩
  | case5 c s hq _ _ ih =>
    obtain ⟨⟨hc, hb⟩, qs, hqs, rfl⟩ := by
      simpa [Option.bind_eq_some_iff, Option.guard_eq_some'] using h
    obtain ⟨t, ht, rfl⟩ := ih hqs
    exact ⟨_, .cons (.plain hc hq hb) ht, rfl⟩

/-- The characters that a string stands for. Two escapes that are the halves of a pair stand for
one character together, and a half alone stands for none. -/
inductive Spells : List StringPiece → List Char → Prop where
  | nil : Spells [] []
  | char (c : Char) {ps : List StringPiece} {cs : List Char} (h : Spells ps cs) :
      Spells (.char c :: ps) (c :: cs)
  | unit {u : Nat} (hu : u < 0xD800 ∨ 0xE000 ≤ u) {ps : List StringPiece} {cs : List Char}
      (h : Spells ps cs) : Spells (.unit u :: ps) (Char.ofNat u :: cs)
  | pair {high low : Nat} (hh : 0xD800 ≤ high ∧ high < 0xDC00) (hl : 0xDC00 ≤ low ∧ low < 0xE000)
      {ps : List StringPiece} {cs : List Char} (h : Spells ps cs) :
      Spells (.unit high :: .unit low :: ps)
        (Char.ofNat (0x10000 + (high - 0xD800) * 0x400 + (low - 0xDC00)) :: cs)

theorem isHighHalf_iff {u : Nat} :
    StringPiece.isHighHalf u ↔ 0xD800 ≤ u ∧ u < 0xDC00 := by simp [StringPiece.isHighHalf]

theorem isLowHalf_iff {u : Nat} :
    StringPiece.isLowHalf u ↔ 0xDC00 ≤ u ∧ u < 0xE000 := by simp [StringPiece.isLowHalf]

/-- Pieces that spell a text decode to it. -/
theorem Spells.decode? {ps : List StringPiece} {cs : List Char} (h : Spells ps cs) :
    StringPiece.decode? ps = some cs := by
  induction h with
  | nil => rfl
  | char c _ ih => rw [StringPiece.decode?, ih, Option.map_some]
  | @unit u hu ps cs h ih =>
    have hhigh : ¬ StringPiece.isHighHalf u := fun hh => by have := isHighHalf_iff.1 hh; omega
    have hlow : ¬ StringPiece.isLowHalf u := fun hl => by have := isLowHalf_iff.1 hl; omega
    -- a unit after this one is looked at, but starts a character of its own
    by_cases hv : ∃ v qs, ps = .unit v :: qs
    · obtain ⟨v, qs, rfl⟩ := hv
      rw [StringPiece.decode?.eq_3, if_neg hhigh, if_neg hlow, ih, Option.map_some]
    · rw [StringPiece.decode?.eq_4 _ _ fun v qs he => hv ⟨v, qs, he⟩,
        if_neg (by simp [hhigh, hlow]), ih, Option.map_some]
  | pair hh hl _ ih =>
    rw [StringPiece.decode?, if_pos (isHighHalf_iff.2 hh), if_pos (isLowHalf_iff.2 hl), ih,
      Option.map_some, StringPiece.joinHalves]

/-- Pieces that decode to a text spell it. -/
theorem spells_of_decode? {ps : List StringPiece} {cs : List Char}
    (h : StringPiece.decode? ps = some cs) : Spells ps cs := by
  fun_induction StringPiece.decode? ps generalizing cs with
  | case1 =>
    cases h
    exact .nil
  | case2 c ps ih =>
    obtain ⟨cs, hcs, rfl⟩ := Option.map_eq_some_iff.1 h
    exact .char c (ih hcs)
  | case3 u v ps hu hv ih =>
    obtain ⟨cs, hcs, rfl⟩ := Option.map_eq_some_iff.1 h
    exact .pair (isHighHalf_iff.1 hu) (isLowHalf_iff.1 hv) (ih hcs)
  | case6 u v ps hu hv ih =>
    obtain ⟨cs, hcs, rfl⟩ := Option.map_eq_some_iff.1 h
    rw [isHighHalf_iff] at hu
    rw [isLowHalf_iff] at hv
    exact .unit (by omega) (ih hcs)
  | case8 u ps _ hu ih =>
    obtain ⟨cs, hcs, rfl⟩ := Option.map_eq_some_iff.1 h
    rw [Bool.or_eq_true, isHighHalf_iff, isLowHalf_iff] at hu
    exact .unit (by omega) (ih hcs)
  | case4 | case5 | case7 => cases h

theorem decode?_eq_some_iff {ps : List StringPiece} {cs : List Char} :
    StringPiece.decode? ps = some cs ↔ Spells ps cs :=
  ⟨spells_of_decode?, Spells.decode?⟩

instance (ps : List StringPiece) (cs : List Char) : Decidable (Spells ps cs) :=
  decidable_of_iff _ decode?_eq_some_iff

/-! ## Numbers -/

def Digits (ds : List Char) : Prop := ds ≠ [] ∧ ∀ c ∈ ds, c.isDigit

inductive SignWritten : Bool → List Char → Prop where
  | absent : SignWritten false []
  | present : SignWritten true ['-']

/-- How a fraction is written, if there is one. -/
inductive FractionWritten : Bool → List Char → Prop where
  | absent : FractionWritten false []
  | present {ds : List Char} (h : Digits ds) : FractionWritten true ('.' :: ds)

/-- How an exponent is written, if there is one. -/
inductive ExponentWritten : Bool → List Char → Prop where
  | absent : ExponentWritten false []
  | present {mark : Char} {sign ds : List Char} (hm : mark ∈ ['e', 'E'])
      (hs : sign ∈ [[], ['+'], ['-']]) (h : Digits ds) :
      ExponentWritten true (mark :: (sign ++ ds))

/-- A sign, digits that start with a zero only if there is no other, a fraction, an exponent. -/
inductive NumberWritten : NumberText → List Char → Prop where
  | mk {negative fraction exponent : Bool} {sign ds fs es : List Char}
      (hs : SignWritten negative sign) (hd : Digits ds) (hz : ds.head? = some '0' → ds = ['0'])
      (hf : FractionWritten fraction fs) (he : ExponentWritten exponent es) :
      NumberWritten ⟨negative, ds, !fraction && !exponent⟩ (sign ++ (ds ++ (fs ++ es)))

theorem Digits.digits? {ds rest : List Char} (h : Digits ds)
    (hr : ∀ c ∈ rest.head?, c.isDigit = false) : Json.digits? (ds ++ rest) = some (ds, rest) := by
  have ht : rest.takeWhile Char.isDigit = [] ∧ rest.dropWhile Char.isDigit = rest := by
    cases rest with
    | nil => exact ⟨rfl, rfl⟩
    | cons c rest =>
      have hc : ¬ c.isDigit := by simp [hr c rfl]
      exact ⟨List.takeWhile_cons_of_neg hc, List.dropWhile_cons_of_neg hc⟩
  have htake : (ds ++ rest).takeWhile Char.isDigit = ds := by
    rw [List.takeWhile_append_of_pos h.2, ht.1, List.append_nil]
  have hdrop : (ds ++ rest).dropWhile Char.isDigit = rest := by
    rw [List.dropWhile_append_of_pos h.2, ht.2]
  obtain ⟨c, cs, rfl⟩ := List.exists_cons_of_ne_nil h.1
  simp only [Json.digits?, htake, hdrop]

theorem written_of_digits? {s ds rest : List Char} (h : digits? s = some (ds, rest)) :
    Digits ds ∧ s = ds ++ rest := by
  unfold digits? at h
  split at h
  · cases h
  · next he =>
    cases h
    refine ⟨⟨he, fun c hc => List.all_eq_true.1 List.all_takeWhile c hc⟩,
      List.takeWhile_append_dropWhile.symm⟩

theorem FractionWritten.fraction? {b : Bool} {fs rest : List Char} (h : FractionWritten b fs)
    (hd : ∀ c ∈ rest.head?, c.isDigit = false) (hp : rest.head? ≠ some '.') :
    Json.fraction? (fs ++ rest) = some (b, rest) := by
  cases h with
  | absent =>
    unfold Json.fraction?
    split
    · next he => simp_all
    · rfl
  | present h =>
    simp only [List.cons_append, Json.fraction?, h.digits? hd, Option.map_some]

theorem written_of_fraction? {b : Bool} {s rest : List Char} (h : fraction? s = some (b, rest)) :
    ∃ fs, FractionWritten b fs ∧ s = fs ++ rest := by
  unfold fraction? at h
  split at h
  · obtain ⟨⟨ds, r⟩, hds, he⟩ := Option.map_eq_some_iff.1 h
    cases he
    obtain ⟨hd, rfl⟩ := written_of_digits? hds
    exact ⟨_, .present hd, rfl⟩
  · cases h
    exact ⟨[], .absent, rfl⟩

theorem ExponentWritten.exponent? {b : Bool} {es rest : List Char} (h : ExponentWritten b es)
    (hd : ∀ c ∈ rest.head?, c.isDigit = false ∧ c ∉ ['e', 'E']) :
    Json.exponent? (es ++ rest) = some (b, rest) := by
  cases h with
  | absent =>
    cases rest with
    | nil => rfl
    | cons c rest =>
      have hc : ¬ (c = 'e' ∨ c = 'E') := by simpa using (hd c rfl).2
      simp only [List.nil_append, Json.exponent?, if_neg hc]
  | @present mark sign ds hm hs h =>
    have hm : mark = 'e' ∨ mark = 'E' := by simpa using hm
    have hds := h.digits? fun c hc => (hd c hc).1
    simp only [List.mem_cons, List.not_mem_nil, or_false] at hs
    rcases hs with rfl | rfl | rfl
    · obtain ⟨c, cs, rfl⟩ := List.exists_cons_of_ne_nil h.1
      have hc : c.isDigit := h.2 c List.mem_cons_self
      simp only [List.cons_append, List.nil_append, Json.exponent?, if_pos hm]
      split
      · next he =>
        obtain ⟨rfl, -⟩ := List.cons.inj he
        exact absurd hc (by decide)
      · next he =>
        obtain ⟨rfl, -⟩ := List.cons.inj he
        exact absurd hc (by decide)
      · exact congrArg (Option.map _) hds
    · simp [Json.exponent?, hm, hds]
    · simp [Json.exponent?, hm, hds]

theorem written_of_exponent? {b : Bool} {s rest : List Char} (h : exponent? s = some (b, rest)) :
    ∃ es, ExponentWritten b es ∧ s = es ++ rest := by
  unfold exponent? at h
  split at h
  · next c s =>
    split at h
    · next hm =>
      have hm : c ∈ ['e', 'E'] := by simpa using hm
      obtain ⟨⟨ds, r⟩, hds, he⟩ := Option.map_eq_some_iff.1 h
      cases he
      obtain ⟨hd, hs⟩ := written_of_digits? hds
      split at hs
      · exact ⟨_, .present hm (.tail _ (.head _)) hd, by rw [hs]; rfl⟩
      · exact ⟨_, .present hm (.tail _ (.tail _ (.head _))) hd, by rw [hs]; rfl⟩
      · exact ⟨_, .present hm (.head _) hd, by rw [hs]; rfl⟩
    · cases h
      exact ⟨[], .absent, rfl⟩
  · cases h
    exact ⟨[], .absent, rfl⟩

/-- What may follow a value: nothing, a blank, or a mark that separates or closes. -/
def Ends (rest : List Char) : Prop := ∀ c ∈ rest.head?, isBlank c ∨ c ∈ [',', ']', '\x7d']

theorem Ends.ne {rest : List Char} (h : Ends rest) {c : Char} (hc : c ∈ rest.head?) {d : Char}
    (hd : d ∉ [' ', '\t', '\n', '\r', ',', ']', '\x7d']) : c ≠ d := by
  rintro rfl
  have := h c hc
  rw [isBlank_iff] at this
  simp_all

theorem Ends.not_digit {rest : List Char} (h : Ends rest) :
    ∀ c ∈ rest.head?, c.isDigit = false := by
  intro c hc
  rcases h c hc with h | h
  · have h := isBlank_iff.1 h
    simp only [List.mem_cons, List.not_mem_nil, or_false] at h
    rcases h with rfl | rfl | rfl | rfl <;> rfl
  · simp only [List.mem_cons, List.not_mem_nil, or_false] at h
    rcases h with rfl | rfl | rfl <;> rfl

theorem FractionWritten.mem_head? {b : Bool} {fs rest : List Char} (h : FractionWritten b fs) :
    ∀ c ∈ (fs ++ rest).head?, c = '.' ∨ c ∈ rest.head? := by
  cases h <;> simp_all [eq_comm]

theorem ExponentWritten.mem_head? {b : Bool} {es rest : List Char} (h : ExponentWritten b es) :
    ∀ c ∈ (es ++ rest).head?, c ∈ ['e', 'E'] ∨ c ∈ rest.head? := by
  cases h <;> simp_all

/-- A number after its sign. -/
def magnitude? (negative : Bool) (s : List Char) : Option (NumberText × List Char) := do
  let (ds, s) ← digits? s
  guard (ds.head? ≠ some '0' ∨ ds.length = 1)
  let (fraction, s) ← fraction? s
  let (exponent, s) ← exponent? s
  return (⟨negative, ds, !fraction && !exponent⟩, s)

theorem SignWritten.number? {b : Bool} {sign ds : List Char} (h : SignWritten b sign)
    (hd : Digits ds) (rest : List Char) :
    Json.number? (sign ++ (ds ++ rest)) = magnitude? b (ds ++ rest) := by
  cases h with
  | absent =>
    obtain ⟨c, cs, rfl⟩ := List.exists_cons_of_ne_nil hd.1
    have hc : c.isDigit := hd.2 c List.mem_cons_self
    rw [List.nil_append, Json.number?]
    · rfl
    · intro t ht
      obtain ⟨rfl, -⟩ := List.cons.inj ht
      exact absurd hc (by decide)
  | present => rfl

theorem exists_sign (s : List Char) :
    ∃ b sign t, SignWritten b sign ∧ s = sign ++ t ∧ number? s = magnitude? b t := by
  unfold number?
  split
  next he =>
  split at he <;> cases he
  · exact ⟨true, _, _, .present, rfl, rfl⟩
  · exact ⟨false, _, _, .absent, rfl, rfl⟩

/-- A number that is written is read, where nothing follows that would extend it. -/
theorem NumberWritten.number? {n : NumberText} {s rest : List Char} (h : NumberWritten n s)
    (hr : Ends rest) : Json.number? (s ++ rest) = some (n, rest) := by
  obtain @⟨negative, fraction, exponent, sign, ds, fs, es, hs, hd, hz, hf, he⟩ := h
  have hexp : Json.exponent? (es ++ rest) = some (exponent, rest) :=
    he.exponent? fun c hc => ⟨hr.not_digit c hc, by
      simp [hr.ne hc (d := 'e') (by decide), hr.ne hc (d := 'E') (by decide)]⟩
  have hdig : ∀ c ∈ (es ++ rest).head?, c.isDigit = false ∧ c ≠ '.' := by
    intro c hc
    rcases he.mem_head? c hc with hm | hm
    · simp only [List.mem_cons, List.not_mem_nil, or_false] at hm
      rcases hm with rfl | rfl <;> decide
    · exact ⟨hr.not_digit c hm, hr.ne hm (by decide)⟩
  have hfrac : Json.fraction? (fs ++ (es ++ rest)) = some (fraction, es ++ rest) :=
    hf.fraction? (fun c hc => (hdig c hc).1) fun h => (hdig _ h).2 rfl
  have hwhole : Json.digits? (ds ++ (fs ++ (es ++ rest))) = some (ds, fs ++ (es ++ rest)) := by
    refine hd.digits? fun c hc => ?_
    rcases hf.mem_head? c hc with rfl | hm
    · rfl
    · exact (hdig c hm).1
  have hzero : ds.head? ≠ some '0' ∨ ds.length = 1 :=
    Decidable.or_iff_not_imp_left.2 fun h0 => by
      rw [hz (Decidable.not_not.1 h0), List.length_singleton]
  simp only [List.append_assoc, hs.number? hd, magnitude?, hwhole]
  simp [hfrac, hexp, hzero]

/-- What is read as a number is one that is written. -/
theorem written_of_number? {s rest : List Char} {n : NumberText}
    (h : number? s = some (n, rest)) : ∃ t, NumberWritten n t ∧ s = t ++ rest := by
  obtain ⟨b, sign, t, hs, rfl, hn⟩ := exists_sign s
  simp only [hn, magnitude?, Option.bind_eq_bind, Option.bind_eq_some_iff] at h
  obtain ⟨⟨ds, r⟩, hds, ⟨⟩, hz, ⟨fraction, r'⟩, hfrac, ⟨exponent, r''⟩, hexp, h⟩ := h
  obtain ⟨rfl, rfl⟩ := Prod.mk.inj (Option.some.inj h)
  obtain ⟨hd, rfl⟩ := written_of_digits? hds
  obtain ⟨fs, hf, rfl⟩ := written_of_fraction? hfrac
  obtain ⟨es, he, rfl⟩ := written_of_exponent? hexp
  refine ⟨_, .mk hs hd (fun h0 => ?_) hf he, by simp only [List.append_assoc]⟩
  have hone : ds.head? ≠ some '0' ∨ ds.length = 1 := (Option.guard_eq_some' ()).1 hz
  obtain ⟨c, rfl⟩ := List.length_eq_one_iff.1 (hone.resolve_left fun hne => hne h0)
  exact congrArg (· :: []) (Option.some.inj h0)

/-! ## Values -/

mutual

/-- How a value is written, without blanks around it. -/
inductive Written : Json → List Char → Prop where
  | null : Written .null ['n', 'u', 'l', 'l']
  | boolTrue : Written (.bool true) ['t', 'r', 'u', 'e']
  | boolFalse : Written (.bool false) ['f', 'a', 'l', 's', 'e']
  | number {n : NumberText} {s : List Char} (h : NumberWritten n s) : Written (.number n) s
  | string {ps : List StringPiece} {s : List Char} (h : StringWritten ps s) :
      Written (.string ps) ('"' :: (s ++ ['"']))
  | emptyArray {b : List Char} (h : Blanks b) : Written (.array []) ('[' :: (b ++ [']']))
  | array {vs : List Json} {s : List Char} (h : ItemsWritten vs s) :
      Written (.array vs) ('[' :: (s ++ [']']))
  | emptyObject {b : List Char} (h : Blanks b) :
      Written (.object []) ('\x7b' :: (b ++ ['\x7d']))
  | object {ms : Members} {s : List Char} (h : MembersWritten ms s) :
      Written (.object ms) ('\x7b' :: (s ++ ['\x7d']))

/-- A value with blanks around it. -/
inductive Padded : Json → List Char → Prop where
  | mk {v : Json} {b s b' : List Char} (hb : Blanks b) (h : Written v s) (hb' : Blanks b') :
      Padded v (b ++ (s ++ b'))

/-- Values with commas between them, at least one. -/
inductive ItemsWritten : List Json → List Char → Prop where
  | one {v : Json} {s : List Char} (h : Padded v s) : ItemsWritten [v] s
  | more {v : Json} {vs : List Json} {s t : List Char} (h : Padded v s)
      (hs : ItemsWritten vs t) : ItemsWritten (v :: vs) (s ++ ',' :: t)

/-- A name, a colon and a value. -/
inductive MemberWritten : List StringPiece → Json → List Char → Prop where
  | mk {k : List StringPiece} {v : Json} {b s b' t : List Char} (hb : Blanks b)
      (hk : StringWritten k s) (hb' : Blanks b') (h : Padded v t) :
      MemberWritten k v (b ++ '"' :: (s ++ '"' :: (b' ++ ':' :: t)))

/-- Members with commas between them, at least one. -/
inductive MembersWritten : Members → List Char → Prop where
  | one {k : List StringPiece} {v : Json} {s : List Char} (h : MemberWritten k v s) :
      MembersWritten [(k, v)] s
  | more {k : List StringPiece} {v : Json} {ms : Members}
      {s t : List Char} (h : MemberWritten k v s) (hs : MembersWritten ms t) :
      MembersWritten ((k, v) :: ms) (s ++ ',' :: t)

end

/-- The characters that a number can start with. -/
def StartsNumber (c : Char) : Prop := c = '-' ∨ c.isDigit

theorem StartsNumber.ne {c d : Char} (h : StartsNumber c) (hd : d.toNat < 48 ∨ 57 < d.toNat)
    (hm : d ≠ '-') : c ≠ d := by
  rintro rfl
  rcases h with h | h
  · exact hm h
  · have : 48 ≤ c.toNat ∧ c.toNat ≤ 57 := by
      simpa [Char.isDigit, UInt32.le_iff_toNat_le] using h
    omega

theorem StartsNumber.not_blank {c : Char} (h : StartsNumber c) : isBlank c = false := by
  simp [isBlank, h.ne (d := ' ') (by decide) (by decide), h.ne (d := '\t') (by decide) (by decide),
    h.ne (d := '\n') (by decide) (by decide), h.ne (d := '\r') (by decide) (by decide)]

theorem NumberWritten.exists_cons {n : NumberText} {s : List Char} (h : NumberWritten n s) :
    ∃ c t, s = c :: t ∧ StartsNumber c := by
  obtain @⟨b, _, _, sign, ds, _, _, hs, hd, -, -, -⟩ := h
  cases hs with
  | absent =>
    obtain ⟨c, cs, rfl⟩ := List.exists_cons_of_ne_nil hd.1
    exact ⟨c, _, rfl, .inr (hd.2 c List.mem_cons_self)⟩
  | present => exact ⟨'-', _, rfl, .inl rfl⟩

theorem StartsNumber.value? {c : Char} (h : StartsNumber c) (n : Nat) (s : List Char) :
    Json.value? (n + 1) (c :: s) = (number? (c :: s)).map fun (v, s) => (.number v, s) := by
  rw [Json.value?, skipBlank_cons h.not_blank]
  split
  case h_7 => rfl
  all_goals next he => exact absurd (List.cons.inj he).1 (h.ne (by decide) (by decide))

theorem skipBlank_skipBlank (s : List Char) : skipBlank (skipBlank s) = skipBlank s := by
  obtain ⟨b, hb, hs⟩ := exists_blanks s
  calc skipBlank (skipBlank s) = skipBlank (b ++ skipBlank s) := (hb.skip _).symm
    _ = skipBlank s := by rw [← hs]

/-- Blanks in front of a value do not matter. -/
theorem value?_congr {s t : List Char} (h : skipBlank s = skipBlank t) (n : Nat) :
    value? n s = value? n t := by
  cases n with
  | zero => rfl
  | succ n => rw [value?, value?, h]

theorem items?_congr {s t : List Char} (h : skipBlank s = skipBlank t) (n : Nat) :
    items? n s = items? n t := by
  cases n with
  | zero => rfl
  | succ n => rw [items?, items?, value?_congr h]

theorem members?_congr {s t : List Char} (h : skipBlank s = skipBlank t) (n : Nat) :
    members? n s = members? n t := by
  cases n with
  | zero => rfl
  | succ n => rw [members?, members?, h]

theorem Written.exists_cons {v : Json} {s : List Char} (h : Written v s) :
    ∃ c t, s = c :: t ∧ isBlank c = false ∧ c ≠ ']' := by
  cases h with
  | number h =>
    obtain ⟨c, t, rfl, hc⟩ := h.exists_cons
    exact ⟨c, t, rfl, hc.not_blank, hc.ne (by decide) (by decide)⟩
  | _ => exact ⟨_, _, rfl, by decide, by decide⟩

theorem ItemsWritten.not_closed {vs : List Json} {s : List Char} (h : ItemsWritten vs s)
    (rest t : List Char) : skipBlank (s ++ rest) ≠ ']' :: t := by
  obtain ⟨v, u, s', hv, rfl⟩ : ∃ v u t, Padded v u ∧ s = u ++ t := by
    cases h with
    | one h => exact ⟨_, _, [], h, (List.append_nil _).symm⟩
    | more h _ => exact ⟨_, _, _, h, rfl⟩
  obtain @⟨_, b, w, b', hb, hw, -⟩ := hv
  obtain ⟨c, w, rfl, hc, hne⟩ := hw.exists_cons
  rw [List.append_assoc, List.append_assoc, hb.skip, List.cons_append, List.cons_append,
    skipBlank_cons hc]
  exact fun he => hne (List.cons.inj he).1

theorem MembersWritten.opens {ms : Members} {s : List Char}
    (h : MembersWritten ms s) (rest : List Char) :
    ∃ t, skipBlank (s ++ rest) = '"' :: t := by
  obtain ⟨k, v, u, s', hm, rfl⟩ : ∃ k v u t, MemberWritten k v u ∧ s = u ++ t := by
    cases h with
    | one h => exact ⟨_, _, _, [], h, (List.append_nil _).symm⟩
    | more h _ => exact ⟨_, _, _, _, h, rfl⟩
  obtain ⟨hb, -, -, -⟩ := hm
  simp only [List.append_assoc, hb.skip, List.cons_append, skipBlank_cons (c := '"') rfl]
  exact ⟨_, rfl⟩

/-- What may follow a value and the blanks after it. -/
def Closes (rest : List Char) : Prop := ∀ c ∈ rest.head?, c ∈ [',', ']', '\x7d']

theorem Closes.skip {rest : List Char} (h : Closes rest) : skipBlank rest = rest := by
  cases rest with
  | nil => rfl
  | cons c rest =>
    refine skipBlank_cons ?_ rest
    have := h c rfl
    simp only [List.mem_cons, List.not_mem_nil, or_false] at this
    rcases this with rfl | rfl | rfl <;> rfl

theorem Blanks.ends {b rest : List Char} (hb : Blanks b) (h : Closes rest) : Ends (b ++ rest) := by
  cases b with
  | nil => exact fun c hc => .inr (h c hc)
  | cons c b =>
    rintro _ ⟨⟩
    exact .inl (isBlank_iff.2 (hb c List.mem_cons_self))

/-! Each induction below is on the derivation. The depth that the reader may still go stays above
the length of what it has to read. -/

mutual

/-- A value that is written is read, given more fuel than its length. -/
theorem Written.value? {v : Json} {s : List Char} {n : Nat} {r : List Char} :
    Written v s → s.length ≤ n → Ends r → Json.value? (n + 1) (s ++ r) = some (v, r)
  | .null, _, _ => rfl
  | .boolTrue, _, _ => rfl
  | .boolFalse, _, _ => rfl
  | .number h, _, hr => by
    obtain ⟨c, t, rfl, hc⟩ := h.exists_cons
    rw [List.cons_append, hc.value?, ← List.cons_append, h.number? hr, Option.map_some]
  | .string h, _, _ => by
    simp only [List.cons_append, List.append_assoc, List.nil_append, Json.value?,
      skipBlank_cons (c := '"') rfl, h.string?, Option.map_some]
  | .emptyArray h, _, _ => by
    simp only [List.cons_append, List.append_assoc, List.nil_append, Json.value?,
      skipBlank_cons (c := '[') rfl, h.skip, skipBlank_cons (c := ']') rfl]
  | @Written.array vs s h, hn, _ => by
    have hi : Json.items? n (skipBlank (s ++ ']' :: r)) = some (vs, r) := by
      rw [items?_congr (skipBlank_skipBlank _)]
      simp only [List.length_append, List.length_cons, List.length_nil] at hn
      obtain ⟨n, rfl⟩ : ∃ k, n = k + 2 := ⟨n - 2, by omega⟩
      exact h.items? (by omega)
    simp only [List.cons_append, List.append_assoc, List.nil_append, Json.value?,
      skipBlank_cons (c := '[') rfl]
    split
    · next he => exact absurd he (h.not_closed _ _)
    · rw [hi, Option.map_some]
  | .emptyObject h, _, _ => by
    simp only [List.cons_append, List.append_assoc, List.nil_append, Json.value?,
      skipBlank_cons (c := '\x7b') rfl, h.skip, skipBlank_cons (c := '\x7d') rfl]
  | @Written.object ms s h, hn, _ => by
    have hi : Json.members? n (skipBlank (s ++ '\x7d' :: r)) = some (ms, r) := by
      rw [members?_congr (skipBlank_skipBlank _)]
      simp only [List.length_append, List.length_cons, List.length_nil] at hn
      obtain ⟨n, rfl⟩ : ∃ k, n = k + 2 := ⟨n - 2, by omega⟩
      exact h.members? (by omega)
    obtain ⟨t, ht⟩ := h.opens ('\x7d' :: r)
    rw [ht] at hi
    simp only [List.cons_append, List.append_assoc, List.nil_append, Json.value?,
      skipBlank_cons (c := '\x7b') rfl, ht]
    exact congrArg (Option.map _) hi

theorem Padded.value? {v : Json} {s : List Char} {n : Nat} {r : List Char} :
    Padded v s → s.length ≤ n → Closes r →
      ∃ t, Json.value? (n + 1) (s ++ r) = some (v, t) ∧ skipBlank t = r
  | @Padded.mk _ b s b' hb h hb', hn, hr => by
    refine ⟨b' ++ r, ?_, by rw [hb'.skip, hr.skip]⟩
    rw [value?_congr (t := s ++ (b' ++ r)) (by simp only [List.append_assoc, hb.skip])]
    simp only [List.length_append] at hn
    exact h.value? (by omega) (hb'.ends hr)

theorem ItemsWritten.items? {vs : List Json} {s : List Char} {n : Nat} {r : List Char} :
    ItemsWritten vs s → s.length ≤ n → Json.items? (n + 2) (s ++ ']' :: r) = some (vs, r)
  | .one h, hn => by
    obtain ⟨t, hv, ht⟩ := h.value? (r := ']' :: r) hn (by simp [Closes])
    simp [Json.items?, hv, ht]
  | .more (s := s) (t := t) h hs, hn => by
    simp only [List.length_append, List.length_cons] at hn
    obtain ⟨n, rfl⟩ : ∃ k, n = k + 1 := ⟨n - 1, by omega⟩
    obtain ⟨q, hv, hr⟩ := h.value? (n := n + 1) (r := ',' :: (t ++ ']' :: r)) (by omega)
      (by simp [Closes])
    simp [Json.items?.eq_2 _ (n + 2), hv, hr, hs.items? (n := n) (r := r) (by omega)]

/-- How far the reader has come after the name, the colon and the value. -/
theorem MemberWritten.read {k : List StringPiece} {v : Json} {s : List Char} {n : Nat}
    {r : List Char} : MemberWritten k v s → s.length ≤ n → Closes r →
      ∃ t u w q, skipBlank (s ++ r) = '"' :: t ∧ string? t = some (k, u) ∧
        afterWord? [':'] (skipBlank u) = some w ∧ Json.value? (n + 1) w = some (v, q) ∧
        skipBlank q = r
  | @MemberWritten.mk _ _ b s b' t hb hk hb' h, hn, hr => by
    simp only [List.length_append, List.length_cons] at hn
    obtain ⟨q, hv, he⟩ := h.value? (n := n) (by omega) hr
    refine ⟨s ++ '"' :: (b' ++ ':' :: (t ++ r)), b' ++ ':' :: (t ++ r), t ++ r, q, ?_,
      hk.string? _, ?_, hv, he⟩
    · simp only [List.append_assoc, List.cons_append, hb.skip, skipBlank_cons (c := '"') rfl]
    · rw [hb'.skip, skipBlank_cons (c := ':') rfl]
      rfl

theorem MembersWritten.members? {ms : Members} {s : List Char} {n : Nat} {r : List Char} :
    MembersWritten ms s → s.length ≤ n → Json.members? (n + 2) (s ++ '\x7d' :: r) = some (ms, r)
  | .one h, hn => by
    obtain ⟨t, u, w, q, ht, hu, hw, hv, hr⟩ :=
      h.read (r := '\x7d' :: r) hn (by simp [Closes])
    simp [Json.members?, ht, hu, hw, hv, hr]
  | .more (s := s) (t := t) h hs, hn => by
    simp only [List.length_append, List.length_cons] at hn
    obtain ⟨n, rfl⟩ : ∃ k, n = k + 1 := ⟨n - 1, by omega⟩
    obtain ⟨t', u, w, q, ht, hu, hw, hv, hr⟩ :=
      h.read (n := n + 1) (r := ',' :: (t ++ '\x7d' :: r)) (by omega) (by simp [Closes])
    simp [Json.members?.eq_2 _ (n + 2), ht, hu, hw, hv, hr,
      hs.members? (n := n) (r := r) (by omega)]

end

theorem written_of_afterWord? {w s rest : List Char} (h : afterWord? w s = some rest) :
    s = w ++ rest := by
  fun_induction afterWord? w s with
  | case1 s => rw [Option.some.inj h, List.nil_append]
  | case2 c cs s ih => rw [ih h, List.cons_append]
  | case3 => cases h
  | case4 => cases h

/-- What each of the three readers has read is in the grammar, by induction on the depth. -/
structure Sound (n : Nat) : Prop where
  value {s rest : List Char} {v : Json} (h : value? n s = some (v, rest)) :
    ∃ b t, Blanks b ∧ Written v t ∧ s = b ++ (t ++ rest)
  items {s rest : List Char} {vs : List Json} (h : items? n s = some (vs, rest)) :
    ∃ t, ItemsWritten vs t ∧ s = t ++ ']' :: rest
  members {s rest : List Char} {ms : Members}
    (h : members? n s = some (ms, rest)) : ∃ t, MembersWritten ms t ∧ s = t ++ '\x7d' :: rest

/-- What is read as a value is one that is written, if that holds with less fuel. -/
theorem Sound.value_succ {n : Nat} (ih : Sound n) {s rest : List Char} {v : Json}
    (h : value? (n + 1) s = some (v, rest)) :
    ∃ b t, Blanks b ∧ Written v t ∧ s = b ++ (t ++ rest) := by
  obtain ⟨b, hb, hs⟩ := exists_blanks s
  suffices ∃ t, Written v t ∧ skipBlank s = t ++ rest by
    obtain ⟨t, ht, he⟩ := this
    exact ⟨b, t, hb, ht, by rw [← he, ← hs]⟩
  rw [value?] at h
  split at h
  · next t he =>
    obtain ⟨b, hb, ht⟩ := exists_blanks t
    split at h
    · next hc =>
      cases h
      exact ⟨_, .emptyObject hb, by rw [he, ht, hc]; simp⟩
    · obtain ⟨⟨ms, r⟩, hr, ⟨⟩⟩ := Option.map_eq_some_iff.1 h
      rw [members?_congr (skipBlank_skipBlank t)] at hr
      obtain ⟨u, hu, rfl⟩ := ih.members hr
      exact ⟨_, .object hu, by rw [he]; simp⟩
  · next t he =>
    obtain ⟨b, hb, ht⟩ := exists_blanks t
    split at h
    · next hc =>
      cases h
      exact ⟨_, .emptyArray hb, by rw [he, ht, hc]; simp⟩
    · obtain ⟨⟨ms, r⟩, hr, ⟨⟩⟩ := Option.map_eq_some_iff.1 h
      rw [items?_congr (skipBlank_skipBlank t)] at hr
      obtain ⟨u, hu, rfl⟩ := ih.items hr
      exact ⟨_, .array hu, by rw [he]; simp⟩
  · next t he =>
    obtain ⟨⟨ps, r⟩, hr, ⟨⟩⟩ := Option.map_eq_some_iff.1 h
    obtain ⟨u, hu, rfl⟩ := written_of_string? hr
    exact ⟨_, .string hu, by rw [he]; simp⟩
  · next t he =>
    obtain ⟨r, hr, ⟨⟩⟩ := Option.map_eq_some_iff.1 h
    exact ⟨_, .null, by rw [he, written_of_afterWord? hr]; rfl⟩
  · next t he =>
    obtain ⟨r, hr, ⟨⟩⟩ := Option.map_eq_some_iff.1 h
    exact ⟨_, .boolTrue, by rw [he, written_of_afterWord? hr]; rfl⟩
  · next t he =>
    obtain ⟨r, hr, ⟨⟩⟩ := Option.map_eq_some_iff.1 h
    exact ⟨_, .boolFalse, by rw [he, written_of_afterWord? hr]; rfl⟩
  · obtain ⟨⟨n, r⟩, hr, ⟨⟩⟩ := Option.map_eq_some_iff.1 h
    obtain ⟨t, ht, he⟩ := written_of_number? hr
    exact ⟨t, .number ht, he⟩

theorem Sound.items_succ {n : Nat} (ih : Sound n) {s rest : List Char} {vs : List Json}
    (h : items? (n + 1) s = some (vs, rest)) : ∃ t, ItemsWritten vs t ∧ s = t ++ ']' :: rest := by
  simp only [items?, Option.bind_eq_bind, Option.bind_eq_some_iff] at h
  obtain ⟨⟨v, r⟩, hv, h⟩ := h
  obtain ⟨b, t, hb, ht, rfl⟩ := ih.value hv
  obtain ⟨b', hb', hr⟩ := exists_blanks r
  have hp : Padded v (b ++ (t ++ b')) := .mk hb ht hb'
  split at h
  · next u hu =>
    obtain ⟨⟨vs, r'⟩, hvs, ⟨⟩⟩ := Option.bind_eq_some_iff.1 h
    obtain ⟨t', ht', rfl⟩ := ih.items hvs
    exact ⟨_, .more hp ht', by rw [hr, hu]; simp⟩
  · next u hu =>
    cases h
    exact ⟨_, .one hp, by rw [hr, hu]; simp⟩
  · cases h

theorem Sound.members_succ {n : Nat} (ih : Sound n) {s rest : List Char}
    {ms : Members} (h : members? (n + 1) s = some (ms, rest)) :
    ∃ t, MembersWritten ms t ∧ s = t ++ '\x7d' :: rest := by
  obtain ⟨b₀, hb₀, hs₀⟩ := exists_blanks s
  rw [members?] at h
  split at h
  case h_2 => cases h
  next s' hs' =>
  simp only [Option.bind_eq_bind, Option.bind_eq_some_iff] at h
  obtain ⟨⟨k, r₁⟩, hk, r₂, hc, ⟨v, r₃⟩, hv, h⟩ := h
  obtain ⟨t₁, ht₁, rfl⟩ := written_of_string? hk
  obtain ⟨b₁, hb₁, hr₁⟩ := exists_blanks r₁
  obtain ⟨b, t, hb, ht, rfl⟩ := ih.value hv
  obtain ⟨b', hb', hr₃⟩ := exists_blanks r₃
  have hm : MemberWritten k v _ := .mk hb₀ ht₁ hb₁ (.mk hb ht hb')
  have hs : s = b₀ ++ '"' :: (t₁ ++ '"' :: (b₁ ++ ':' :: (b ++ (t ++ b')))) ++ skipBlank r₃ := by
    rw [hs₀, hs', hr₁, written_of_afterWord? hc]
    simp [← hr₃]
  split at h
  · next u hu =>
    obtain ⟨⟨vs, r'⟩, hvs, ⟨⟩⟩ := Option.bind_eq_some_iff.1 h
    obtain ⟨t', ht', rfl⟩ := ih.members hvs
    exact ⟨_, .more hm ht', by rw [hs, hu]; simp⟩
  · next u hu =>
    cases h
    exact ⟨_, .one hm, by rw [hs, hu]⟩
  · cases h

theorem sound (n : Nat) : Sound n := by
  induction n with
  | zero => constructor <;> intro _ _ _ h <;> cases h
  | succ n ih => exact ⟨ih.value_succ, ih.items_succ, ih.members_succ⟩

end Processor64.Json
