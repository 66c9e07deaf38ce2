import SandboxProfile.Proofs.JsonNesting
import SandboxProfile.Proofs.JsonSpelling
import SandboxProfile.Proofs.Spelling

/-!
# Reading back written JSON

A value that was written with any spacing is read back with its fields in order as long as it opens
no more brackets than the limit, and is refused for its depth otherwise. The leaves come first:
strings and integers are read back whatever follows; then one step of each loop; then the recursion
over the value, which carries both outcomes at once (`Answers`).
-/

namespace SandboxProfile.Json

/-! ### Blanks and what ends a value -/

theorem skipBlank_append {bs : List Char} (h : bs.all isBlank) (cs : List Char) :
    skipBlank (bs ++ cs) = skipBlank cs :=
  List.dropWhile_append_of_pos (List.all_eq_true.mp h)

theorem skipBlank_cons {c : Char} (h : isBlank c = false) (cs : List Char) :
    skipBlank (c :: cs) = c :: cs :=
  List.dropWhile_cons_of_neg (by rw [h]; exact Bool.false_ne_true)

/-- A character in front of which a number is over. -/
def endsNumber (c : Char) : Bool := isBlank c || c = ',' || c = ']' || c = '\x7d'

/-- A text in front of which a number is over. -/
def Ends : List Char → Prop
  | [] => True
  | c :: _ => endsNumber c = true

theorem ends_append {bs cs : List Char} (h : bs.all isBlank) (hcs : Ends cs) : Ends (bs ++ cs) := by
  cases bs with
  | nil => exact hcs
  | cons b bs =>
    rw [List.all_cons, Bool.and_eq_true] at h
    simp [Ends, endsNumber, h.1]

theorem isDigit_of_endsNumber {c : Char} (h : endsNumber c = true) : c.isDigit = false := by
  cases hc : c.isDigit with
  | false => rfl
  | true =>
    have hne {d : Char} (hd : d.isDigit = false) : c ≠ d := Symbol.ne_of_holds hc hd
    simp [endsNumber, isBlank, hne (d := ' ') rfl, hne (d := '\t') rfl, hne (d := '\n') rfl,
      hne (d := '\r') rfl, hne (d := ',') rfl, hne (d := ']') rfl, hne (d := '\x7d') rfl] at h

theorem span_digits {ds rest : List Char} (hds : ds.all Char.isDigit) (hrest : Ends rest) :
    (ds ++ rest).takeWhile Char.isDigit = ds ∧ (ds ++ rest).dropWhile Char.isDigit = rest := by
  refine span_append (List.all_eq_true.mp hds) ?_
  cases rest with
  | nil => exact nofun
  | cons c rest =>
    intro d hd
    cases hd
    exact isDigit_of_endsNumber hrest

/-! ### Strings -/

/-- Puts a character in front of what was read. -/
def Reads.cons (c : Char) (r : Reads (List Char)) : Reads (List Char) :=
  r.map fun (s, rest) => (c :: s, rest)

theorem stringBody_eq (cs : List Char) :
    stringBody cs =
      match cs.dropWhile isPlain with
      | [] => stopAtEnd .endInString
      | '"' :: rest => .ok (cs.takeWhile isPlain, rest)
      | '\\' :: rest =>
        match escapeSequence rest with
        | .error stop => .error stop
        | .ok (c, rest) =>
          match stringBody rest with
          | .error stop => .error stop
          | .ok (more, rest) => .ok (cs.takeWhile isPlain ++ c :: more, rest)
      | c :: rest => stopAt .controlCharacter (c :: rest) := by
  rw [stringBody.eq_def]
  split
  next hd => rw [hd]
  next hd => rw [hd]; rfl
  next hd =>
    rw [hd]
    split
    next he => simp only [he]
    next more he => cases hb : stringBody more <;> simp only [he, hb]
  next hquote hback hd =>
    rw [hd]
    split
    next h => cases h
    next h => exact absurd (List.cons.inj h).1 hquote
    next h => exact absurd (List.cons.inj h).1 hback
    next h => rw [h]

theorem stringBody_plain {c : Char} (h : isPlain c = true) (cs : List Char) :
    stringBody (c :: cs) = (stringBody cs).cons c := by
  have hdrop : (c :: cs).dropWhile isPlain = cs.dropWhile isPlain := List.dropWhile_cons_of_pos h
  have htake : (c :: cs).takeWhile isPlain = c :: cs.takeWhile isPlain :=
    List.takeWhile_cons_of_pos h
  rw [stringBody_eq, stringBody_eq cs, hdrop, htake]
  split
  · rfl
  · rfl
  · split
    · rfl
    · split <;> rfl
  · rfl

theorem stringBody_escape {cs after : List Char} {c : Char}
    (h : escapeSequence cs = .ok (c, after)) :
    stringBody ('\\' :: cs) = (stringBody after).cons c := by
  have hdrop : ('\\' :: cs).dropWhile isPlain = '\\' :: cs := rfl
  have htake : ('\\' :: cs).takeWhile isPlain = [] := rfl
  rw [stringBody_eq, hdrop, htake]
  simp only [h]
  split
  next hb => rw [hb]; rfl
  next hb => rw [hb]; rfl

/-- A control character is escaped by its number. -/
theorem escapeSequence_control {n : Nat} (h : n < 0x20) (cs : List Char) :
    escapeSequence ('u' :: '0' :: '0' :: Nat.digitChar (n / 16) :: Nat.digitChar (n % 16) :: cs) =
      .ok (Char.ofNat n, cs) := by
  have hhex : ∀ m < 0x20, [Nat.digitChar (m / 16), Nat.digitChar (m % 16)].all Hex.isDigit = true ∧
      Hex.number ['0', '0', Nat.digitChar (m / 16), Nat.digitChar (m % 16)] = m := by decide
  have hdigits : hexDigits ('0' :: '0' :: Nat.digitChar (n / 16) :: Nat.digitChar (n % 16) :: cs) =
      .ok (n, cs) := by
    obtain ⟨hall, hnumber⟩ := hhex n h
    have hzero : Hex.isDigit '0' = true := rfl
    rw [hexDigits]
    simp only [List.all_cons, hzero, Bool.true_and, hall, if_true, hnumber]
  have hlow : isLowSurrogate n = false := by
    rw [isLowSurrogate, decide_eq_false (by omega), Bool.false_and]
  have hhigh : isHighSurrogate n = false := by
    rw [isHighSurrogate, decide_eq_false (by omega), Bool.false_and]
  rw [escapeSequence, if_pos rfl, numberedEscape, hdigits]
  simp [hlow, hhigh]

theorem stringBody_escaped (c : Char) (cs : List Char) :
    stringBody (escape c ++ cs) = (stringBody cs).cons c := by
  unfold escape
  split
  next h => subst h; exact stringBody_escape rfl
  split
  next h => subst h; exact stringBody_escape rfl
  split
  next h => subst h; exact stringBody_escape rfl
  split
  next h => subst h; exact stringBody_escape rfl
  split
  next h => subst h; exact stringBody_escape rfl
  split
  next h => subst h; exact stringBody_escape rfl
  split
  next h => subst h; exact stringBody_escape rfl
  split
  next h =>
    have hescape := stringBody_escape (escapeSequence_control h cs)
    rwa [Char.ofNat_toNat] at hescape
  next hquote hback _ _ _ _ _ hcontrol =>
    refine stringBody_plain ?_ cs
    simp [isPlain, hquote, hback, Nat.le_of_not_lt hcontrol]

theorem stringBody_quoted (s rest : List Char) :
    stringBody (s.flatMap escape ++ '"' :: rest) = .ok (s, rest) := by
  induction s with
  | nil =>
    rw [stringBody.eq_def]
    rfl
  | cons c s ih =>
    rw [List.flatMap_cons, List.append_assoc, stringBody_escaped, ih]
    rfl

/-- A string is read back. -/
theorem stringBody_quote (s : String) (rest : List Char) :
    ∃ cs, (quote s).toList ++ rest = '"' :: cs ∧ stringBody cs = .ok (s.toList, rest) := by
  refine ⟨s.toList.flatMap escape ++ '"' :: rest, ?_, stringBody_quoted _ _⟩
  simp [quote]

/-! ### Integers -/

/-- A number that is not zero has no zero in front. -/
theorem toDigits_leading {n : Nat} (h : 0 < n) :
    ∃ d ds, Nat.toDigits 10 n = d :: ds ∧ d ≠ '0' := by
  induction n using Nat.strongRecOn with
  | ind n ih =>
    by_cases hsmall : n < 10
    · refine ⟨_, [], Nat.toDigits_of_lt_base hsmall, fun heq => ?_⟩
      have hval := Nat.toNat_digitChar_of_lt_ten hsmall
      rw [heq] at hval
      change 48 = 48 + n at hval
      omega
    · obtain ⟨d, ds, heq, hd⟩ := ih (n / 10) (by omega) (by omega)
      refine ⟨d, ds ++ [(n % 10).digitChar], ?_, hd⟩
      rw [Nat.toDigits_of_base_le (by decide) (by omega), heq, List.cons_append]

/-- The digits behind a number lead to no smaller one. -/
theorem le_foldl_digits (ds : List Char) (n : Nat) :
    n ≤ ds.foldl (fun n d => n * 10 + (d.toNat - '0'.toNat)) n := by
  induction ds generalizing n with
  | nil => exact Nat.le_refl n
  | cons d ds ih =>
    have h : n ≤ n * 10 + (d.toNat - '0'.toNat) := by omega
    exact Nat.le_trans h (ih _)

theorem significand_of_le (ds : List Char) (n : Nat)
    (h : ds.foldl (fun n d => n * 10 + (d.toNat - '0'.toNat)) n ≤ greatestWord) :
    significand n ds = (ds.foldl (fun n d => n * 10 + (d.toNat - '0'.toNat)) n, 0) := by
  induction ds generalizing n with
  | nil => rfl
  | cons d ds ih =>
    rw [significand, if_pos (Nat.le_trans (le_foldl_digits ds _) h), ih _ h]
    rfl

theorem afterWhole_of_ends {negative : Bool} {digits dropped : Nat} {rest : List Char}
    (h : Ends rest) :
    afterWhole negative digits dropped rest = wholeNumber negative digits dropped rest := by
  cases rest with
  | nil => rfl
  | cons c rest =>
    have hne {d : Char} (hd : endsNumber d = false) : c ≠ d := Symbol.ne_of_holds h hd
    simp [afterWhole, isExponentMark, hne (d := '.') rfl, hne (d := 'e') rfl, hne (d := 'E') rfl]

theorem unsigned_toDigits {n : Nat} (negative : Bool) (hn : n ≤ greatestWord) {rest : List Char}
    (h : Ends rest) :
    unsigned negative (Nat.toDigits 10 n ++ rest) = wholeNumber negative n 0 rest := by
  by_cases hzero : n = 0
  · subst hzero
    rw [← afterWhole_of_ends h]
    cases rest with
    | nil => rfl
    | cons c rest =>
      simp [unsigned, isDigit_of_endsNumber h]
  · obtain ⟨d, ds, hcons, hd⟩ := toDigits_leading (Nat.pos_of_ne_zero hzero)
    have hall : (d :: ds).all Char.isDigit = true := by
      obtain ⟨d', ds', hcons', hd', hds'⟩ := toDigits_eq_cons n
      rw [← hcons, hcons', List.all_cons, hd', hds']
      rfl
    obtain ⟨htake, hdrop⟩ := span_digits hall h
    have hnumber : IntegerLiteral.number (d :: ds) = n := by rw [← hcons, number_toDigits]
    have hsig : significand 0 (d :: ds) = (n, 0) := by
      rw [← hnumber] at hn
      rw [significand_of_le _ _ hn]
      exact congrArg (·, 0) hnumber
    have hdigit : d.isDigit = true := by
      rw [List.all_cons, Bool.and_eq_true] at hall
      exact hall.1
    have hdrop' : (ds ++ rest).dropWhile Char.isDigit = rest := by
      rwa [List.cons_append, List.dropWhile_cons_of_pos hdigit] at hdrop
    rw [hcons, List.cons_append, unsigned.eq_def]
    simp only [if_neg hd, if_pos hdigit, ← List.cons_append, htake, hsig, hdrop']
    exact afterWhole_of_ends h

theorem wholeNumber_negative {n : Nat} (hpos : n ≠ 0) (hfits : n ≤ 0x8000000000000000)
    (rest : List Char) : wholeNumber true n 0 rest = .ok (integer (-n), rest) := by
  have hdouble : (decide (n = 0) || decide (0x8000000000000000 < n)) = false := by
    rw [decide_eq_false hpos, decide_eq_false (Nat.not_lt.mpr hfits)]
    rfl
  rw [wholeNumber, if_neg (not_not_intro rfl), if_neg (by decide), hdouble]
  rfl

/-- An integer of 64 bits, with a sign or without, is read back. -/
theorem valueFrom_integer {n : Int} (hlow : -0x8000000000000000 ≤ n) (hhigh : n ≤ greatestWord)
    (inner : Option ValueReader) {rest : List Char} (h : Ends rest) :
    ∃ c cs, (toString n).toList ++ rest = c :: cs ∧ (c.isDigit = true ∨ c = '-') ∧
      valueFrom inner c cs = .ok (integer n, rest) := by
  rw [Int.toString_eq_repr]
  cases n with
  | ofNat n =>
    obtain ⟨d, ds, hcons, hd, -⟩ := toDigits_eq_cons n
    have hread := unsigned_toDigits false (Int.ofNat_le.mp hhigh) h
    refine ⟨d, ds ++ rest, ?_, .inl hd, ?_⟩
    · change n.repr.toList ++ rest = _
      rw [Nat.toList_repr, hcons, List.cons_append]
    · have hne {c : Char} (hc : c.isDigit = false) : d ≠ c := Symbol.ne_of_holds hd hc
      rw [hcons, List.cons_append] at hread
      unfold valueFrom
      rw [if_neg (hne rfl), if_neg (hne rfl), if_neg (hne rfl), if_neg (hne rfl), if_pos hd, hread]
      rfl
  | negSucc n =>
    have hn : n + 1 ≤ 0x8000000000000000 := by omega
    have hread := unsigned_toDigits true
      (Nat.le_trans hn (by decide : 0x8000000000000000 ≤ greatestWord)) h
    refine ⟨'-', Nat.toDigits 10 (n + 1) ++ rest, ?_, .inr rfl, ?_⟩
    · change ("-" ++ (n + 1).repr).toList ++ rest = _
      rw [String.toList_append, Nat.toList_repr]
      rfl
    · change unsigned true _ = _
      rw [hread, wholeNumber_negative (Nat.succ_ne_zero n) hn]
      rfl

/-! ### One step of each loop -/

/-- What two readers read one after the other, put together. -/
def Reads.andThen {α β γ : Type} (r : Reads α) (next : List Char → Reads β) (f : α → β → γ) :
    Reads γ :=
  r.bind fun (x, rest) => (next rest).map fun (y, rest) => (f x y, rest)

section Loops

variable {item : ValueReader} {c : Char} {cs rest : List Char}

theorem moreItems_closed (h : skipBlank cs = ']' :: rest) : moreItems item cs = .ok ([], rest) := by
  rw [moreItems.eq_def]
  split
  next h' => rw [h] at h'; cases h'
  next h' => rw [h] at h'; cases h'; rfl
  next h' => rw [h] at h'; cases h'
  next h' _ => exact absurd h (h' rest)

theorem moreItems_comma (h : skipBlank cs = c :: rest) (hc : c ≠ ']') :
    moreItems item (',' :: cs) = (item.read cs).andThen (moreItems item) (· :: ·) := by
  have hcomma : skipBlank (',' :: cs) = ',' :: cs := rfl
  rw [moreItems.eq_def]
  split
  next h' => cases hcomma.symm.trans h'
  next h' => cases hcomma.symm.trans h'
  next h' =>
    cases hcomma.symm.trans h'
    split
    next h' => cases h.symm.trans h'
    next h' => cases h.symm.trans h'; exact absurd rfl hc
    next =>
      split
      next hr => rw [hr]; rfl
      next hr =>
        rw [hr]
        change _ = Except.map _ _
        split
        next hm => rw [hm]; rfl
        next hm => rw [hm]; rfl
  next h' => exact absurd hcomma (h' cs)

theorem items_closed (h : skipBlank cs = ']' :: rest) : items item cs = .ok ([], rest) := by
  rw [items, h]
  rfl

theorem items_open (h : skipBlank cs = c :: rest) (hc : c ≠ ']') :
    items item cs = (item.read (c :: rest)).andThen (moreItems item) (· :: ·) := by
  rw [items, h]
  split
  next h' => cases h'
  next h' => cases h'; exact absurd rfl hc
  next =>
    split
    next hr => rw [hr]; rfl
    next hr =>
      rw [hr]
      change _ = Except.map _ _
      split
      next hm => rw [hm]; rfl
      next hm => rw [hm]; rfl

theorem field_eq {key after : List Char} (hkey : stringBody cs = .ok (key, after))
    (hcolon : skipBlank after = ':' :: rest) :
    field item cs = (item.read rest).map fun (x, rest) => ((String.ofList key, x), rest) := by
  rw [field, hkey]
  simp only [hcolon]
  split
  next hr => rw [hr]; rfl
  next hr => rw [hr]; rfl

theorem moreFields_closed (h : skipBlank cs = '\x7d' :: rest) :
    moreFields item cs = .ok ([], rest) := by
  rw [moreFields.eq_def]
  split
  next h' => rw [h] at h'; cases h'
  next h' => rw [h] at h'; cases h'; rfl
  next h' => rw [h] at h'; cases h'
  next h' _ => exact absurd h (h' rest)

theorem moreFields_comma (h : skipBlank cs = '"' :: rest) :
    moreFields item (',' :: cs) = (field item rest).andThen (moreFields item) (· :: ·) := by
  have hcomma : skipBlank (',' :: cs) = ',' :: cs := rfl
  rw [moreFields.eq_def]
  split
  next h' => cases hcomma.symm.trans h'
  next h' => cases hcomma.symm.trans h'
  next h' =>
    cases hcomma.symm.trans h'
    split
    next h' => cases h.symm.trans h'
    next h' => cases h.symm.trans h'
    next h' =>
      cases h.symm.trans h'
      split
      next hf => rw [hf]; rfl
      next hf =>
        rw [hf]
        change _ = Except.map _ _
        split
        next hm => rw [hm]; rfl
        next hm => rw [hm]; rfl
    next h' => exact absurd h (h' rest)
  next h' => exact absurd hcomma (h' cs)

theorem fields_closed (h : skipBlank cs = '\x7d' :: rest) : fields item cs = .ok ([], rest) := by
  rw [fields, h]
  rfl

theorem fields_open (h : skipBlank cs = '"' :: rest) :
    fields item cs = (field item rest).andThen (moreFields item) (· :: ·) := by
  rw [fields, h]
  simp only
  split
  next hf => rw [hf]; rfl
  next hf =>
    rw [hf]
    change _ = Except.map _ _
    split
    next hm => rw [hm]; rfl
    next hm => rw [hm]; rfl

end Loops

/-! ### Values -/

mutual

/-- A value that is a text of its own: no double is in it, and every integer has 64 bits, with a
sign or without. -/
def Textual : Json → Prop
  | integer n => -0x8000000000000000 ≤ n ∧ n ≤ greatestWord
  | double _ => False
  | array items => TextualItems items
  | object fields => TextualFields fields
  | _ => True

def TextualItems : List Json → Prop
  | [] => True
  | x :: xs => x.Textual ∧ TextualItems xs

def TextualFields : List (String × Json) → Prop
  | [] => True
  | (_, x) :: xs => x.Textual ∧ TextualFields xs

end

/-- What reading answers where `limit` brackets may be open and `deep` have to be: the value and the
rest, or that it is too deep. -/
def Answers {α : Type} (limit deep : Nat) (value : α) (rest : List Char) (r : Reads α) : Prop :=
  (deep ≤ limit → r = .ok (value, rest)) ∧ (limit < deep → ∃ unread, r = stopAt .tooDeep unread)

namespace Answers

variable {α β γ : Type} {limit deep deep' : Nat} {x : α} {y : β} {rest rest' : List Char}
  {r : Reads α}

theorem flat (h : r = .ok (x, rest)) : Answers limit 0 x rest r :=
  ⟨fun _ => h, fun hdeep => absurd hdeep (Nat.not_lt_zero limit)⟩

theorem map (h : Answers limit deep x rest r) (f : α → β) :
    Answers limit deep (f x) rest (r.map fun (x, rest) => (f x, rest)) := by
  refine ⟨fun hdeep => ?_, fun hdeep => ?_⟩
  · rw [h.1 hdeep]
    rfl
  · obtain ⟨unread, hr⟩ := h.2 hdeep
    exact ⟨unread, by rw [hr]; rfl⟩

/-- The first of two readers that finds its value too deep says so. -/
theorem andThen {next : List Char → Reads β} (h : Answers limit deep x rest r)
    (hnext : Answers limit deep' y rest' (next rest)) (f : α → β → γ) :
    Answers limit (max deep deep') (f x y) rest' (r.andThen next f) := by
  refine ⟨fun hdeep => ?_, fun hdeep => ?_⟩
  · rw [h.1 (by omega), Reads.andThen]
    change Except.map _ (next rest) = _
    rw [hnext.1 (by omega)]
    rfl
  · by_cases hfirst : deep ≤ limit
    · obtain ⟨unread, hr⟩ := hnext.2 (by omega)
      refine ⟨unread, ?_⟩
      rw [h.1 hfirst, Reads.andThen]
      change Except.map _ (next rest) = _
      rw [hr]
      rfl
    · obtain ⟨unread, hr⟩ := h.2 (by omega)
      exact ⟨unread, by rw [hr]; rfl⟩

end Answers

/-- The reader of what stands in a bracket, if one may be opened. -/
def within : Nat → Option ValueReader
  | 0 => none
  | limit + 1 => some (valueReader limit)

theorem read_eq {limit : Nat} {c : Char} {cs rest : List Char} (h : skipBlank cs = c :: rest) :
    (valueReader limit).read cs = valueFrom (within limit) c rest := by
  cases limit <;> simp only [valueReader, readWith, h, within]

/-- Reading what stands in a bracket counts the bracket. -/
theorem answers_bracket {α : Type} (read : ValueReader → List Char → Reads α) (f : α → Json)
    {limit deep : Nat} {c : Char} {cs rest : List Char} {x : α}
    (hc : ∀ inner, valueFrom inner c cs =
      match inner with
      | none => stopAt .tooDeep (c :: cs)
      | some item => (read item cs).map fun (x, rest) => (f x, rest))
    (h : ∀ limit, Answers limit deep x rest (read (valueReader limit) cs)) :
    Answers limit (1 + deep) (f x) rest (valueFrom (within limit) c cs) := by
  rw [hc]
  cases limit with
  | zero => exact ⟨fun hdeep => absurd hdeep (by omega), fun _ => ⟨c :: cs, rfl⟩⟩
  | succ limit =>
    have hmap := (h limit).map f
    exact ⟨fun hdeep => hmap.1 (by omega), fun hdeep => hmap.2 (by omega)⟩

theorem answers_array {limit deep : Nat} {cs rest : List Char} {xs : List Json}
    (h : ∀ limit, Answers limit deep xs rest (items (valueReader limit) cs)) :
    Answers limit (1 + deep) (array xs) rest (valueFrom (within limit) '[' cs) :=
  answers_bracket items array (fun _ => rfl) h

theorem answers_object {limit deep : Nat} {cs rest : List Char} {xs : List (String × Json)}
    (h : ∀ limit, Answers limit deep xs rest (fields (valueReader limit) cs)) :
    Answers limit (1 + deep) (object (sortFields xs)) rest (valueFrom (within limit) '\x7b' cs) :=
  answers_bracket fields (fun xs => object (sortFields xs)) (fun _ => rfl) h

/-- The first character of a value is no blank and closes nothing. -/
theorem spelled_eq_cons (s : Spacing) (level : Nat) {x : Json} (h : x.Textual) :
    ∃ c cs, x.spelled s level = c :: cs ∧ endsNumber c = false := by
  cases x with
  | null => exact ⟨'n', _, rfl, rfl⟩
  | bool b => cases b <;> exact ⟨_, _, rfl, rfl⟩
  | integer n =>
    obtain ⟨c, cs, hcons, hc, -⟩ := valueFrom_integer h.1 h.2 none (show Ends [] from trivial)
    rw [List.append_nil] at hcons
    refine ⟨c, cs, hcons, ?_⟩
    rcases hc with hdigit | rfl
    · cases hend : endsNumber c with
      | false => rfl
      | true => rw [isDigit_of_endsNumber hend] at hdigit; cases hdigit
    · rfl
  | double => exact h.elim
  | string t => exact ⟨'"', _, String.toList_ofList, rfl⟩
  | array items => cases items <;> exact ⟨'[', _, rfl, rfl⟩
  | object fields =>
    obtain - | ⟨⟨key, x⟩, fields⟩ := fields <;> exact ⟨'\x7b', _, rfl, rfl⟩

/-- A value behind blanks: nothing but the blanks is skipped. -/
theorem skipBlank_spelled {bs : List Char} (hbs : bs.all isBlank) (s : Spacing) (level : Nat)
    {x : Json} (h : x.Textual) (rest : List Char) :
    ∃ c cs, skipBlank (bs ++ (x.spelled s level ++ rest)) = c :: cs ∧
      x.spelled s level ++ rest = c :: cs ∧ c ≠ ']' := by
  obtain ⟨c, cs, hcons, hc⟩ := spelled_eq_cons s level h
  have hblank : isBlank c = false := by
    cases hb : isBlank c with
    | false => rfl
    | true => simp [endsNumber, hb] at hc
  refine ⟨c, cs ++ rest, ?_, by rw [hcons]; rfl, ?_⟩
  · rw [skipBlank_append hbs, hcons, List.cons_append, skipBlank_cons hblank]
  · rintro rfl
    cases hc

/-- What stands behind an item: the other items or the closing bracket. -/
theorem ends_more (s : Spacing) (level : Nat) (texts : List (List Char)) {c : Char}
    (hc : endsNumber c = true) (rest : List Char) :
    Ends (s.more level texts ++ (s.line level ++ c :: rest)) := by
  cases texts with
  | nil =>
    change Ends (s.line level ++ c :: rest)
    exact ends_append (s.line_blank level) hc
  | cons text texts => exact rfl

theorem more_cons (s : Spacing) (level : Nat) (text : List Char) (texts : List (List Char))
    (rest : List Char) :
    s.more level (text :: texts) ++ rest =
      ',' :: (s.line (level + 1) ++ (text ++ (s.more level texts ++ rest))) := by
  simp [Spacing.more]

theorem enclosed_cons (s : Spacing) (level : Nat) (opened closed : Char) (text : List Char)
    (texts : List (List Char)) (rest : List Char) :
    s.enclosed level opened closed (text :: texts) ++ rest =
      opened :: (s.line (level + 1) ++
        (text ++ (s.more level texts ++ (s.line level ++ closed :: rest)))) := by
  simp [Spacing.enclosed]

theorem answers_field {limit deep : Nat} {x : Json} {item : ValueReader}
    {cs rest : List Char} (key : String) (h : Answers limit deep x rest (item.read cs)) :
    ∃ ks, (quote key).toList ++ ':' :: cs = '"' :: ks ∧
      Answers limit deep (key, x) rest (field item ks) := by
  obtain ⟨ks, hcons, hread⟩ := stringBody_quote key (':' :: cs)
  refine ⟨ks, hcons, ?_⟩
  rw [field_eq hread (skipBlank_cons rfl cs), String.ofList_toList]
  exact h.map (key, ·)

mutual

/-- A written value is read back, or is too deep; the brackets of its items are one more than
theirs. -/
theorem answers_spelled (s : Spacing) (limit level : Nat) {bs rest : List Char}
    (hbs : bs.all isBlank) (hrest : Ends rest) : (x : Json) → x.Textual →
    Answers limit x.brackets x.sorted rest
      ((valueReader limit).read (bs ++ (x.spelled s level ++ rest)))
  | null, h => by
    rw [read_eq (skipBlank_append hbs _)]
    exact .flat rfl
  | bool b, h => by
    cases b <;> (rw [read_eq (skipBlank_append hbs _)]; exact .flat rfl)
  | integer n, h => by
    obtain ⟨c, cs, hskip, hcons, -⟩ := skipBlank_spelled hbs s level h rest
    obtain ⟨c', cs', hcons', -, hread⟩ := valueFrom_integer h.1 h.2 (within limit) hrest
    cases hcons.symm.trans hcons'
    rw [read_eq hskip]
    exact .flat hread
  | double _, h => h.elim
  | string t, h => by
    obtain ⟨cs, hcons, hread⟩ := stringBody_quote t rest
    have htext : (string t).spelled s level ++ rest = '"' :: cs := hcons
    rw [htext, read_eq ((skipBlank_append hbs _).trans (skipBlank_cons rfl cs))]
    refine .flat ?_
    change (stringBody cs).map _ = _
    rw [hread]
    change Except.ok (string (String.ofList t.toList), rest) = _
    rw [String.ofList_toList]
    rfl
  | array [], h => by
    rw [read_eq (skipBlank_append hbs _)]
    exact answers_array fun limit => .flat (items_closed rfl)
  | array (x :: xs), h => by
    have hends := ends_more s level (spelledItems s (level + 1) xs) (c := ']') rfl rest
    obtain ⟨c, cs, hskip, hcons, hc⟩ := skipBlank_spelled (s.line_blank (level + 1)) s (level + 1)
      h.1 (s.more level (spelledItems s (level + 1) xs) ++ (s.line level ++ ']' :: rest))
    rw [spelled, spelledItems, enclosed_cons,
      read_eq ((skipBlank_append hbs _).trans (skipBlank_cons rfl _))]
    refine answers_array fun limit => ?_
    rw [items_open hskip hc, ← hcons]
    exact (answers_spelled s limit (level + 1) List.all_nil hends x h.1).andThen
      (answers_items s limit level xs h.2) _
  | object [], h => by
    rw [read_eq (skipBlank_append hbs _)]
    exact answers_object fun limit => .flat (fields_closed rfl)
  | object ((key, x) :: fields), h => by
    have hends := ends_more s level (spelledFields s (level + 1) fields) (c := '\x7d') rfl rest
    rw [spelled, spelledFields, enclosed_cons, List.append_assoc, List.cons_append,
      List.append_assoc, read_eq ((skipBlank_append hbs _).trans (skipBlank_cons rfl _))]
    refine answers_object fun limit => ?_
    obtain ⟨ks, hkey, hfield⟩ := answers_field key
      (answers_spelled s limit (level + 1) s.colon_blank hends x h.1)
    rw [hkey, fields_open ((skipBlank_append (s.line_blank _) _).trans (skipBlank_cons rfl ks))]
    exact hfield.andThen (answers_fields s limit level fields h.2) _

theorem answers_items (s : Spacing) (limit level : Nat) {rest : List Char} : (xs : List Json) →
    TextualItems xs →
    Answers limit (bracketsItems xs) (sortedItems xs) rest (moreItems (valueReader limit)
      (s.more level (spelledItems s (level + 1) xs) ++ (s.line level ++ ']' :: rest)))
  | [], _ => by
    refine .flat (moreItems_closed ?_)
    exact skipBlank_append (s.line_blank level) _
  | x :: xs, h => by
    have hends := ends_more s level (spelledItems s (level + 1) xs) (c := ']') rfl rest
    obtain ⟨c, cs, hskip, -, hc⟩ := skipBlank_spelled (s.line_blank (level + 1)) s (level + 1) h.1
      (s.more level (spelledItems s (level + 1) xs) ++ (s.line level ++ ']' :: rest))
    rw [spelledItems, more_cons, moreItems_comma hskip hc]
    exact (answers_spelled s limit (level + 1) (s.line_blank (level + 1)) hends x h.1).andThen
      (answers_items s limit level xs h.2) _

theorem answers_fields (s : Spacing) (limit level : Nat) {rest : List Char} :
    (fields : List (String × Json)) → TextualFields fields →
    Answers limit (bracketsFields fields) (sortedFields fields) rest (moreFields (valueReader limit)
      (s.more level (spelledFields s (level + 1) fields) ++ (s.line level ++ '\x7d' :: rest)))
  | [], _ => by
    refine .flat (moreFields_closed ?_)
    exact skipBlank_append (s.line_blank level) _
  | (key, x) :: fields, h => by
    have hends := ends_more s level (spelledFields s (level + 1) fields) (c := '\x7d') rfl rest
    obtain ⟨ks, hkey, hfield⟩ := answers_field key
      (answers_spelled s limit (level + 1) s.colon_blank hends x h.1)
    rw [spelledFields, more_cons, List.append_assoc, List.cons_append, List.append_assoc, hkey,
      moreFields_comma ((skipBlank_append (s.line_blank _) _).trans (skipBlank_cons rfl ks))]
    exact hfield.andThen (answers_fields s limit level fields h.2) _

end

/-! ### Texts -/

/-- A written value is read back with its fields in order if it opens no more brackets than may be
open, and is refused as too deep otherwise. -/
theorem readText_spelled (s : Spacing) (limit level : Nat) {x : Json} (h : x.Textual) :
    (x.brackets ≤ limit → readText limit (x.spelled s level) = .ok x.sorted) ∧
      (limit < x.brackets →
        ∃ unread, readText limit (x.spelled s level) = .error ⟨.tooDeep, unread, 1⟩) := by
  have hread := answers_spelled s limit level List.all_nil (show Ends [] from trivial) x h
  rw [List.nil_append, List.append_nil] at hread
  refine ⟨fun hdeep => ?_, fun hdeep => ?_⟩
  · rw [readText, hread.1 hdeep]
    rfl
  · obtain ⟨unread, hstop⟩ := hread.2 hdeep
    exact ⟨unread, by rw [readText, hstop]; rfl⟩

end SandboxProfile.Json
