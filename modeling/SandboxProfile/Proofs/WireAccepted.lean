import SandboxProfile.Proofs.JsonBrackets
import SandboxProfile.Proofs.WireText

/-!
# Writing back what was read

Whatever text a profile is read from, the profile is written with no more brackets in each other
than the text has, and none of its symbols begins with the mark of a string. So it is read back from
its own text in either style (`ofText_print_accepted`), also if the text it was read from has fields
that are unknown or stand twice, nulls, records in the form of arrays, or strings without their last
mark.
-/

namespace SandboxProfile

namespace Json

/-! ### What a decoder keeps -/

/-- A value that is written with at most `n` brackets in each other, and read back as itself. -/
structure Fits {α : Type} (encode : α → Json) (reread : α → α) (n : Nat) (y : α) : Prop where
  brackets : (encode y).brackets ≤ n
  settled : reread y = y

/-- What a decoder makes of a value fits the brackets of the value. -/
def Keeps {α : Type} (decode : Json → Decodes α) (encode : α → Json) (reread : α → α) (x : Json) :
    Prop :=
  ∀ y, decode x = .ok y → Fits encode reread x.brackets y

/-- A list of values in an array. -/
def listOf {α : Type} (encode : α → Json) (ys : List α) : Json := array (ys.map encode)

section

variable {α β σ : Type} {encode : α → Json} {reread : α → α} {decode : Json → Decodes α} {n : Nat}
  {x : Json}

theorem bind_ok {r : Decodes α} {f : α → Decodes β} {z : β} (h : (r >>= f) = .ok z) :
    ∃ y, r = .ok y ∧ f y = .ok z := by
  cases r with
  | error fault => cases h
  | ok y => exact ⟨y, rfl, h⟩

theorem Fits.mono {m : Nat} {y : α} (h : Fits encode reread m y) (hle : m ≤ n) :
    Fits encode reread n y :=
  ⟨Nat.le_trans h.brackets hle, h.settled⟩

theorem fits_listOf {ys : List α} (h : ∀ y ∈ ys, Fits encode reread n y) :
    Fits (listOf encode) (List.map reread) (n + 1) ys := by
  constructor
  · have hitems : bracketsItems (ys.map encode) ≤ n := by
      rw [bracketsItems_le_iff, List.forall_mem_map]
      exact fun y hy => (h y hy).brackets
    rw [listOf, brackets]
    omega
  · exact Wire.Profile.map_eq_self_iff.mpr fun y hy => (h y hy).settled

theorem mapM_ok {items : List Json} {ys : List α} (h : items.mapM decode = .ok ys) :
    ∀ y ∈ ys, ∃ item ∈ items, decode item = .ok y := by
  induction items generalizing ys with
  | nil =>
    cases h
    exact List.forall_mem_nil _
  | cons item items ih =>
    rw [List.mapM_cons] at h
    obtain ⟨y, hy, h⟩ := bind_ok h
    obtain ⟨more, hmore, h⟩ := bind_ok h
    cases h
    rw [List.forall_mem_cons]
    refine ⟨⟨item, List.mem_cons_self, hy⟩, fun z hz => ?_⟩
    obtain ⟨other, hother, hz⟩ := ih hmore z hz
    exact ⟨other, List.mem_cons_of_mem _ hother, hz⟩

theorem keeps_asListOf (h : ∀ item, item.brackets < x.brackets → Keeps decode encode reread item) :
    Keeps (asListOf decode) (listOf encode) (List.map reread) x := by
  intro ys hys
  obtain ⟨items, hitems, hys⟩ := bind_ok hys
  cases x with
  | array _ =>
    cases hitems
    have hx : (array items).brackets = bracketsItems items + 1 := Nat.add_comm ..
    rw [hx] at h ⊢
    apply fits_listOf
    intro y hy
    obtain ⟨item, hitem, hdecode⟩ := mapM_ok hys y hy
    have hle : item.brackets ≤ bracketsItems items :=
      bracketsItems_le_iff.mp (Nat.le_refl _) item hitem
    exact (h item (Nat.lt_succ_of_le hle) y hdecode).mono hle
  | _ => cases hitems

theorem keeps_asOption (h : Keeps decode encode reread x) {o : Option α}
    (ho : asOption decode x = .ok o) : ∀ y ∈ o, Fits encode reread x.brackets y := by
  rintro y rfl
  have hmap (r : Decodes α) (hr : r.map some = .ok (some y)) : r = .ok y := by
    cases r with
    | error fault => cases hr
    | ok z =>
      cases hr
      rfl
  cases x with
  | null => cases ho
  | _ => exact h y (hmap _ ho)

theorem keeps_asString : Keeps asString string id x := by
  intro s hs
  cases x with
  | string t => exact ⟨Nat.zero_le _, rfl⟩
  | _ => cases hs

/-- What holds of what was taken in at first, and is kept by each field, holds of all fields. -/
theorem takeFields_keeps {P : σ → Prop} {take : σ → String → Json → Decodes σ} {start taken : σ}
    {fields : List (String × Json)} (hstart : P start)
    (hstep : ∀ field ∈ fields, ∀ s s', P s → take s field.1 field.2 = .ok s' → P s')
    (h : takeFields take start fields = .ok taken) : P taken := by
  induction fields generalizing start with
  | nil =>
    cases h
    exact hstart
  | cons field fields ih =>
    obtain ⟨hfield, hfields⟩ := List.forall_mem_cons.mp hstep
    obtain ⟨next, hnext, h⟩ := bind_ok h
    exact ih (hfield start next hstart hnext) hfields h

/-- A record is made of what was taken in from values inside, be it an object or an array. -/
theorem asRecord_keeps {P : Nat → σ → Prop} {shape : RecordShape}
    {take : σ → String → Json → Decodes σ} {start : σ} {complete : σ → Decodes β} {y : β}
    (hstart : ∀ n, P n start)
    (hstep : ∀ n s key field s', n < x.brackets → field.brackets ≤ n → P n s →
      take s key field = .ok s' → P n s')
    (h : asRecord shape take start complete x = .ok y) :
    ∃ n taken, x.brackets = n + 1 ∧ P n taken ∧ complete taken = .ok y := by
  cases x with
  | object fields =>
    obtain ⟨taken, htaken, h⟩ := bind_ok h
    have hx : (object fields).brackets = bracketsFields fields + 1 := Nat.add_comm ..
    refine ⟨bracketsFields fields, taken, hx, ?_, h⟩
    refine takeFields_keeps (hstart _) (fun field hfield s s' hs hnext => ?_) htaken
    have hle : field.2.brackets ≤ bracketsFields fields :=
      bracketsFields_le_iff.mp (Nat.le_refl _) field hfield
    exact hstep _ s field.1 field.2 s' (by omega) hle hs hnext
  | array items =>
    obtain ⟨taken, htaken, h⟩ := bind_ok h
    obtain ⟨_, -, h⟩ := bind_ok h
    have hx : (array items).brackets = bracketsItems items + 1 := Nat.add_comm ..
    refine ⟨bracketsItems items, taken, hx, ?_, h⟩
    refine takeFields_keeps (hstart _) (fun field hfield s s' hs hnext => ?_) htaken
    have hle : field.2.brackets ≤ bracketsItems items :=
      bracketsItems_le_iff.mp (Nat.le_refl _) field.2 (List.of_mem_zip hfield).2
    exact hstep _ s field.1 field.2 s' (by omega) hle hs hnext
  | _ => cases h

/-! ### What a record is written with -/

theorem bracketsFields_fieldOf_le {o : Option α} (name : String)
    (h : ∀ y ∈ o, (encode y).brackets ≤ n) : bracketsFields (fieldOf name encode o) ≤ n := by
  cases o with
  | none => exact Nat.zero_le n
  | some y => exact Nat.max_le.mpr ⟨h y rfl, Nat.zero_le n⟩

/-- A list fits, or nothing is written for it as it is empty. -/
def FitsList (encode : α → Json) (reread : α → α) (n : Nat) (ys : List α) : Prop :=
  ys = [] ∨ Fits (listOf encode) (List.map reread) n ys

theorem FitsList.settled {ys : List α} (h : FitsList encode reread n ys) :
    ys.map reread = ys := by
  rcases h with rfl | hfits
  · rfl
  · exact hfits.settled

theorem FitsList.brackets {ys : List α} (h : FitsList encode reread n ys) (name : String) :
    bracketsFields (fieldOfList name encode ys) ≤ n := by
  rcases h with rfl | hfits
  · exact Nat.zero_le n
  · cases ys with
    | nil => exact Nat.zero_le n
    | cons y ys => exact Nat.max_le.mpr ⟨hfits.brackets, Nat.zero_le n⟩

end

end Json

namespace Wire

/-! ### Expressions -/

namespace Node

/-- What a text on the wire denotes is no symbol with the mark of a string in front. -/
theorem reread_ofText (text : String) : (ofText text).reread = ofText text := by
  unfold ofText
  split
  · rfl
  next h =>
    rw [reread, ofText]
    split
    next cs hcs => exact absurd hcs (h cs)
    · rfl

mutual

theorem keeps_ofJson : (x : Json) → Json.Keeps ofJson toJson reread x
  | .integer n, v, h => by
    rw [ofJson] at h
    split at h <;> cases h
    exact ⟨Nat.le_refl 0, rfl⟩
  | .string text, v, h => by
    cases h
    have hbrackets : (ofText text).toJson.brackets ≤ 0 := by
      unfold ofText
      split <;> exact Nat.le_refl 0
    exact ⟨hbrackets, reread_ofText text⟩
  | .bool b, v, h => by
    cases h
    exact ⟨Nat.le_refl 0, rfl⟩
  | .array items, v, h => by
    cases hvs : ofJsonAll items with
    | error fault =>
      rw [ofJson, hvs] at h
      cases h
    | ok vs =>
      rw [ofJson, hvs] at h
      cases h
      have hitems := keeps_ofJsonAll items vs hvs
      constructor
      · exact Nat.add_le_add_left hitems.1 1
      · rw [reread, hitems.2]
  | .null, v, h | .double _, v, h | .object _, v, h => by cases h

theorem keeps_ofJsonAll : (xs : List Json) → ∀ vs, ofJsonAll xs = .ok vs →
    Json.bracketsItems (toJsonAll vs) ≤ Json.bracketsItems xs ∧ rereadAll vs = vs
  | [], vs, h => by
    cases h
    exact ⟨Nat.le_refl 0, rfl⟩
  | x :: xs, vs, h => by
    obtain ⟨v, hv, h⟩ := Json.bind_ok h
    obtain ⟨more, hmore, h⟩ := Json.bind_ok h
    cases h
    have hx := keeps_ofJson x v hv
    have hxs := keeps_ofJsonAll xs more hmore
    constructor
    · have hfirst := hx.brackets
      have hmore := hxs.1
      simp only [toJsonAll, Json.bracketsItems]
      omega
    · rw [rereadAll, hx.settled, hxs.2]

end

end Node

/-! ### Filters -/

namespace Filter

theorem toJsonAll_eq_map (fs : List Filter) : toJsonAll fs = fs.map toJson := by
  induction fs with
  | nil => rfl
  | cons f fs ih => rw [toJsonAll, ih, List.map_cons]

theorem ofJsonAll_eq_mapM (xs : List Json) : ofJsonAll xs = xs.mapM ofJson := by
  induction xs with
  | nil => rfl
  | cons x xs ih => rw [ofJsonAll, ih, List.mapM_cons]

theorem ofItems_eq_takeFields (d : Fields) (keys : List String) (items : List Json) :
    ofItems d keys items = Json.takeFields take d (keys.zip items) := by
  induction keys generalizing d items with
  | nil => cases items <;> rfl
  | cons key keys ih =>
    cases items with
    | nil => rfl
    | cons x items =>
      rw [ofItems]
      exact congrArg (take d key x >>= ·) (funext fun d => ih d items)

/-- A filter is read as any record is. -/
theorem ofJson_eq_asRecord (x : Json) :
    ofJson x = Json.asRecord shape take ⟨none, none, none⟩ Fields.complete x := by
  cases x with
  | object fields =>
    rw [ofJson, ofFields_eq_takeFields]
    rfl
  | array items =>
    rw [ofJson, ofItems_eq_takeFields]
    rfl
  | _ => rfl

/-- What was taken in fits `n` brackets. -/
structure Fields.Fits (n : Nat) (d : Fields) : Prop where
  value : ∀ v ∈ d.value, Json.Fits Node.toJson Node.reread n v
  filters : ∀ fs ∈ d.filters, Json.Fits (Json.listOf toJson) (List.map reread) n fs

theorem fits_nothing (n : Nat) : Fields.Fits n ⟨none, none, none⟩ :=
  ⟨fun v hv => absurd hv (Option.not_mem_none v), fun fs hfs => absurd hfs (Option.not_mem_none fs)⟩

theorem fits_take {n : Nat} {d d' : Fields} {key : String} {x : Json}
    (hx : x.brackets ≤ n)
    (hfilters : ∀ item, item.brackets < x.brackets → Json.Keeps ofJson toJson reread item)
    (hd : d.Fits n) (h : take d key x = .ok d') : d'.Fits n := by
  unfold take at h
  split at h
  · obtain ⟨type, -, h⟩ := Json.bind_ok h
    cases h
    exact ⟨hd.value, hd.filters⟩
  · obtain ⟨value, hvalue, h⟩ := Json.bind_ok h
    cases h
    refine ⟨fun v hv => ?_, hd.filters⟩
    exact (Json.keeps_asOption (Node.keeps_ofJson _) hvalue v hv).mono hx
  · cases h
    exact ⟨hd.value, fun fs hfs => absurd hfs (Option.not_mem_none fs)⟩
  next items =>
    obtain ⟨fs, hfs, h⟩ := Json.bind_ok h
    cases h
    refine ⟨hd.value, fun gs hgs => ?_⟩
    cases hgs
    rw [ofJsonAll_eq_mapM] at hfs
    exact (Json.keeps_asListOf hfilters fs hfs).mono hx
  · cases h
  · cases h
    exact hd

theorem fits_complete {n : Nat} {d : Fields} {f : Filter} (hd : d.Fits n)
    (h : d.complete = .ok f) : Json.Fits toJson reread (n + 1) f := by
  obtain ⟨type, -, h⟩ := Json.bind_ok h
  cases h
  obtain ⟨_, value, filters⟩ := d
  have hvalue : Json.bracketsFields (Json.fieldOf "value" Node.toJson value) ≤ n :=
    Json.bracketsFields_fieldOf_le "value" fun v hv => (hd.value v hv).brackets
  have hreread : value.map Node.reread = value := by
    cases value with
    | none => rfl
    | some v => exact congrArg some (hd.value v rfl).settled
  cases filters with
  | none =>
    constructor
    · simp only [toJson, Json.brackets, Json.bracketsFields]
      omega
    · rw [reread, hreread]
  | some fs =>
    have hfs := hd.filters fs rfl
    have hlist := hfs.brackets
    have hsettled := hfs.settled
    constructor
    · simp only [toJson, toJsonAll_eq_map, Json.brackets, Json.bracketsFields,
        Json.bracketsFields_append]
      simp only [Json.listOf, Json.brackets] at hlist
      omega
    · rw [reread, hreread, rereadAll_eq_map, hsettled]

theorem keeps_ofJson (x : Json) : Json.Keeps ofJson toJson reread x := by
  -- the filters inside have fewer brackets
  induction hn : x.brackets using Nat.strongRecOn generalizing x with
  | ind n ih =>
    intro f h
    rw [ofJson_eq_asRecord] at h
    obtain ⟨m, taken, hx, htaken, h⟩ := Json.asRecord_keeps fits_nothing
      (fun m s key field s' hm hfield hs hnext => fits_take hfield
        (fun item hitem => ih item.brackets (by omega) item rfl) hs hnext) h
    rw [hx]
    exact fits_complete htaken h

end Filter

/-! ### Declarations -/

namespace Definition

/-- The value that was taken in fits `n` brackets. -/
def Fields.Fits (n : Nat) (d : Fields) : Prop :=
  ∀ v ∈ d.value, Json.Fits Node.toJson Node.reread n v

theorem fits_take {n : Nat} {d d' : Fields} {key : String} {x : Json} (hx : x.brackets ≤ n)
    (hd : d.Fits n) (h : d.take key x = .ok d') : d'.Fits n := by
  unfold Fields.take at h
  split at h
  · obtain ⟨name, -, h⟩ := Json.bind_ok h
    cases h
    exact hd
  · obtain ⟨value, hvalue, h⟩ := Json.bind_ok h
    cases h
    intro v hv
    cases hv
    exact (Node.keeps_ofJson x value hvalue).mono hx
  · cases h
    exact hd

theorem keeps_ofJson (x : Json) : Json.Keeps ofJson toJson reread x := by
  intro d h
  obtain ⟨n, taken, hx, htaken, h⟩ := Json.asRecord_keeps (P := Fields.Fits)
    (fun n v hv => absurd hv (Option.not_mem_none v))
    (fun n s key field s' _ hfield hs hnext => fits_take hfield hs hnext) h
  obtain ⟨name, -, h⟩ := Json.bind_ok h
  obtain ⟨value, hvalue, h⟩ := Json.bind_ok h
  cases h
  obtain ⟨name?, value?⟩ := taken
  cases value? with
  | none => cases hvalue
  | some v =>
    cases hvalue
    have hvalue := htaken value rfl
    have hbrackets := hvalue.brackets
    rw [hx]
    constructor
    · simp only [toJson, Json.brackets, Json.bracketsFields]
      omega
    · rw [reread, hvalue.settled]

end Definition

namespace Rule

/-- What was taken in fits `n` brackets. -/
structure Fields.Fits (n : Nat) (d : Fields) : Prop where
  operations : ∀ names ∈ d.operations, Json.Fits (Json.listOf .string) (List.map id) n names
  filters : Json.FitsList Filter.toJson Filter.reread n d.filters

theorem fits_nothing (n : Nat) : Fields.Fits n ⟨none, none, []⟩ :=
  ⟨fun names hnames => absurd hnames (Option.not_mem_none names), .inl rfl⟩

theorem fits_take {n : Nat} {d d' : Fields} {key : String} {x : Json} (hx : x.brackets ≤ n)
    (hd : d.Fits n) (h : d.take key x = .ok d') : d'.Fits n := by
  unfold Fields.take at h
  split at h
  · obtain ⟨action, -, h⟩ := Json.bind_ok h
    cases h
    exact ⟨hd.operations, hd.filters⟩
  · obtain ⟨names, hnames, h⟩ := Json.bind_ok h
    cases h
    refine ⟨fun other hother => ?_, hd.filters⟩
    cases hother
    exact (Json.keeps_asListOf (fun _ _ => Json.keeps_asString) names hnames).mono hx
  · obtain ⟨filters, hfilters, h⟩ := Json.bind_ok h
    cases h
    have hlist := Json.keeps_asListOf (fun item _ => Filter.keeps_ofJson item) filters hfilters
    exact ⟨hd.operations, .inr (hlist.mono hx)⟩
  · cases h
    exact hd

theorem keeps_ofJson (x : Json) : Json.Keeps ofJson toJson reread x := by
  intro r h
  obtain ⟨n, taken, hx, htaken, h⟩ := Json.asRecord_keeps fits_nothing
    (fun n s key field s' _ hfield hs hnext => fits_take hfield hs hnext) h
  obtain ⟨action, -, h⟩ := Json.bind_ok h
  obtain ⟨names, hnames, h⟩ := Json.bind_ok h
  cases h
  obtain ⟨action?, operations?, filters⟩ := taken
  cases operations? with
  | none => cases hnames
  | some operations =>
    cases hnames
    have hoperations := (htaken.operations names rfl).brackets
    have hfilters : Json.bracketsFields (Json.fieldOfList "filters" Filter.toJson filters) ≤ n :=
      htaken.filters.brackets "filters"
    rw [hx]
    constructor
    · simp only [Json.listOf, Json.brackets] at hoperations
      simp only [toJson, Json.brackets, Json.bracketsFields, Json.bracketsFields_append]
      omega
    · rw [reread, htaken.filters.settled]

end Rule

/-! ### Profiles -/

namespace Profile

/-- The declarations of a profile fit `n` brackets. -/
structure Fits (n : Nat) (p : Profile) : Prop where
  imports : Json.FitsList .string id n p.imports
  definitions : Json.FitsList Definition.toJson Definition.reread n p.definitions
  rules : Json.FitsList Rule.toJson Rule.reread n p.rules

theorem fits_empty (n : Nat) : Fits n empty := ⟨.inl rfl, .inl rfl, .inl rfl⟩

theorem fits_take {n : Nat} {p p' : Profile} {key : String} {x : Json} (hx : x.brackets ≤ n)
    (hp : p.Fits n) (h : p.take key x = .ok p') : p'.Fits n := by
  unfold take at h
  split at h
  · obtain ⟨version, -, h⟩ := Json.bind_ok h
    cases h
    exact ⟨hp.imports, hp.definitions, hp.rules⟩
  · obtain ⟨debugMode, -, h⟩ := Json.bind_ok h
    cases h
    exact ⟨hp.imports, hp.definitions, hp.rules⟩
  · obtain ⟨imports, himports, h⟩ := Json.bind_ok h
    cases h
    have hlist := Json.keeps_asListOf (fun _ _ => Json.keeps_asString) imports himports
    exact ⟨.inr (hlist.mono hx), hp.definitions, hp.rules⟩
  · obtain ⟨definitions, hdefinitions, h⟩ := Json.bind_ok h
    cases h
    have hlist :=
      Json.keeps_asListOf (fun item _ => Definition.keeps_ofJson item) definitions hdefinitions
    exact ⟨hp.imports, .inr (hlist.mono hx), hp.rules⟩
  · obtain ⟨rules, hrules, h⟩ := Json.bind_ok h
    cases h
    have hlist := Json.keeps_asListOf (fun item _ => Rule.keeps_ofJson item) rules hrules
    exact ⟨hp.imports, hp.definitions, .inr (hlist.mono hx)⟩
  · cases h
    exact hp

theorem Fits.brackets {n : Nat} {p : Profile} (h : p.Fits n) : p.toJson.brackets ≤ n + 1 := by
  have hversion : Json.bracketsFields (Json.fieldOf "version" (fun n => .integer n.toInt)
      p.version) ≤ n :=
    Json.bracketsFields_fieldOf_le "version" fun _ _ => Nat.zero_le n
  have hdebug : Json.bracketsFields (Json.fieldOf "debugMode" (fun a => .string a.text)
      p.debugMode) ≤ n :=
    Json.bracketsFields_fieldOf_le "debugMode" fun _ _ => Nat.zero_le n
  have himports := h.imports.brackets "imports"
  have hdefinitions := h.definitions.brackets "definitions"
  have hrules := h.rules.brackets "rules"
  simp only [toJson, Json.brackets, Json.bracketsFields_append]
  omega

theorem Fits.settled {n : Nat} {p : Profile} (h : p.Fits n) : p.reread = p := by
  rw [reread, h.definitions.settled, h.rules.settled]

/-- What a value is read as has no more brackets than it, and is read back as itself. -/
theorem keeps_ofJson {x : Json} {p : Profile} (h : ofJson x = .ok p) :
    Json.Fits toJson reread x.brackets p := by
  unfold ofJson at h
  split at h
  next fields =>
    split at h
    · cases h
    cases htaken : ofFields fields with
    | error fault =>
      rw [htaken] at h
      cases h
    | ok taken =>
      rw [htaken] at h
      cases h
      have hfits : Fits (Json.bracketsFields fields) p :=
        Json.takeFields_keeps (fits_empty _) (fun field hfield s s' hs hnext => fits_take
          (Json.bracketsFields_le_iff.mp (Nat.le_refl _) field hfield) hs hnext) htaken
      constructor
      · rw [Json.brackets, Nat.add_comm]
        exact hfits.brackets
      · exact hfits.settled
  · cases h

theorem brackets_ofText {text : String} {x : Json} (h : Json.ofText text = .ok x) :
    x.brackets ≤ Json.textLimit := by
  unfold Json.ofText at h
  cases hread : Json.readText Json.textLimit text.toList with
  | error stop =>
    rw [hread] at h
    cases h
  | ok y =>
    rw [hread] at h
    cases h
    exact Json.brackets_readText hread

/-- A profile that was read from a text is read from its own text in either style. -/
theorem ofText_print_accepted {text : String} {p : Profile} (h : ofText text = .ok p)
    (style : Style) : ofText (p.print style) = .ok p := by
  unfold ofText at h
  cases hx : Json.ofText text with
  | error message =>
    rw [hx] at h
    cases h
  | ok x =>
    rw [hx] at h
    have hfits := keeps_ofJson h
    have hbrackets : p.toJson.brackets ≤ Json.textLimit :=
      Nat.le_trans hfits.brackets (brackets_ofText hx)
    rw [ofText_print style hbrackets, hfits.settled]

/-- A text with much that is never written: an unknown field, a field that stands twice, the second
time as null, records as arrays, an empty list, and a string without its last mark. -/
def irregular : String :=
  "\x7b\"note\": [1.5], \"version\": 1, \"version\": null, " ++
    "\"definitions\": [[\"d\", \"\\\"open\"]], " ++
    "\"rules\": [\x7b\"action\": \x7b\"allow\": null\x7d, \"operations\": [], " ++
    "\"filters\": [[\"path\", null, []]]\x7d]\x7d"

/-- What that text is read as. -/
def straightened : Profile where
  version := none
  debugMode := none
  imports := []
  definitions := [⟨"d", .string "ope"⟩]
  rules := [⟨.allow, [], [⟨"path", none, some []⟩]⟩]

theorem ofText_print_irregular : ofText irregular = .ok straightened ∧
    ofText (straightened.print .pretty) = .ok straightened := by
  have hoption : (ofText irregular).toOption = some straightened := by decide +kernel
  have hread : ofText irregular = .ok straightened := by
    cases hr : ofText irregular with
    | error refusal =>
      rw [hr] at hoption
      cases hoption
    | ok p =>
      rw [hr] at hoption
      exact congrArg Except.ok (Option.some.inj hoption)
  exact ⟨hread, ofText_print_accepted hread .pretty⟩

end Profile

end Wire

end SandboxProfile
