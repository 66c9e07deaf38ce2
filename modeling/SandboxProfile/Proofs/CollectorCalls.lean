import Mathlib.Data.Finset.Dedup
import Mathlib.Data.Finset.Insert
import SandboxProfile.Diagnostic.Collector

/-!
# Calls of one collector

Diagnostics are offered to a collector one at a time or several at once. However the calls follow
each other, what is kept are the first occurrences among all that were offered, in order
(`Collector.firstOnly_drive`). A collector that looks diagnostics up in a set of those it has seen,
and not in the list it keeps, gives the same answers: the set is always that of the list.
-/

namespace SandboxProfile

/-- Erasing later duplicates leaves none. -/
theorem nodup_eraseDups {α : Type} [DecidableEq α] (xs : List α) : xs.eraseDups.Nodup := by
  induction hn : xs.length using Nat.strongRecOn generalizing xs with
  | ind n ih =>
    cases xs with
    | nil => exact List.nodup_nil
    | cons x xs =>
      rw [List.eraseDups_cons, List.nodup_cons]
      refine ⟨by simp [List.mem_eraseDups], ih _ ?_ _ rfl⟩
      subst hn
      exact Nat.lt_succ_of_le (List.length_filter_le _ xs)

theorem eraseDups_concat {α : Type} [DecidableEq α] (xs : List α) (x : α) :
    (xs ++ [x]).eraseDups = if x ∈ xs then xs.eraseDups else xs.eraseDups ++ [x] := by
  rw [List.eraseDups_append]
  by_cases h : x ∈ xs <;> simp [h, List.removeAll, List.eraseDups_cons]

namespace Collector

/-- A way to offer diagnostics. -/
inductive Call where
  | push (d : Diagnostic)
  | extend (ds : List Diagnostic)
deriving DecidableEq, Repr

namespace Call

/-- The diagnostics that a call offers, in order. -/
def offers : Call → List Diagnostic
  | push d => [d]
  | extend ds => ds

/-- All that calls offer, in order. -/
def offered (calls : List Call) : List Diagnostic := calls.flatMap offers

/-- What calls tell one after the other, and what is behind them all, where `answer` makes one. -/
def drive {σ : Type} (answer : σ → Call → Option Bool × σ) (c : σ) :
    List Call → List (Option Bool) × σ
  | [] => ([], c)
  | call :: calls =>
    let (told, after) := answer c call
    let (more, last) := drive answer after calls
    (told :: more, last)

end Call

/-- What a call tells, if anything, and the collector behind it. -/
def answer (c : Collector) : Call → Option Bool × Collector
  | .push d => (some (c.push d).1, (c.push d).2)
  | .extend ds => (none, c.extend ds)

/-- A collector with the set of what it has seen beside the list. -/
structure Indexed where
  seen : Finset Diagnostic
  items : Array Diagnostic

namespace Indexed

def empty : Indexed := ⟨∅, #[]⟩

def push (c : Indexed) (d : Diagnostic) : Bool × Indexed :=
  if d ∈ c.seen then (false, c) else (true, ⟨insert d c.seen, c.items.push d⟩)

def extend (c : Indexed) (ds : List Diagnostic) : Indexed := ds.foldl (fun c d => (c.push d).2) c

def answer (c : Indexed) : Call → Option Bool × Indexed
  | .push d => (some (c.push d).1, (c.push d).2)
  | .extend ds => (none, c.extend ds)

end Indexed

/-- The same list with the set of its members. -/
def indexed (c : Collector) : Indexed := ⟨c.toList.toFinset, c.items⟩

/-- What has come of calls on a new collector: it keeps the first occurrences of what was offered,
and a diagnostic was told to be new exactly if no equal one had been offered before. -/
structure FirstOnly (calls : List Call) (told : List (Option Bool)) (c : Collector) : Prop where
  items : c.toList = (Call.offered calls).eraseDups
  distinct : c.toList.Nodup
  pushed : ∀ before d after, calls = before ++ .push d :: after →
    told[before.length]? = some (some (decide (d ∉ Call.offered before)))
  extended : ∀ before ds after, calls = before ++ .extend ds :: after →
    told[before.length]? = some none ∧
      c = (Call.drive answer empty (before ++ (ds.map .push ++ after))).2
  size : c.size = (Call.offered calls).eraseDups.length
  errorCount : c.errorCount =
    ((Call.offered calls).eraseDups.filter fun d => d.severity = .error).length
  hasErrors : c.hasErrors = true ↔ ∃ d ∈ Call.offered calls, d.severity = .error
  inStep : Call.drive Indexed.answer .empty calls = (told, c.indexed)

/-! ### One call -/

variable {c : Collector} {os : List Diagnostic}

theorem push_first (h : c.toList = os.eraseDups) (d : Diagnostic) :
    (c.push d).1 = decide (d ∉ os) ∧ (c.push d).2.toList = (os ++ [d]).eraseDups := by
  have hmem : d ∈ c.items ↔ d ∈ os := by
    have hlist : c.items.toList = os.eraseDups := h
    rw [← Array.mem_toList_iff, hlist, List.mem_eraseDups]
  constructor
  · by_cases hd : d ∈ os <;> simp [push, hmem, hd]
  · rw [toList_push, eraseDups_concat, h]
    simp only [List.mem_eraseDups]

theorem extend_first (h : c.toList = os.eraseDups) (ds : List Diagnostic) :
    (c.extend ds).toList = (os ++ ds).eraseDups := by
  induction ds generalizing c os with
  | nil => rwa [extend_nil, List.append_nil]
  | cons d ds ih =>
    have hnext := ih (push_first h d).2
    rwa [List.append_assoc] at hnext

theorem answer_first (h : c.toList = os.eraseDups) (call : Call) :
    (c.answer call).2.toList = (os ++ call.offers).eraseDups := by
  cases call with
  | push d => exact (push_first h d).2
  | extend ds => exact extend_first h ds

theorem push_indexed (c : Collector) (d : Diagnostic) :
    c.indexed.push d = ((c.push d).1, (c.push d).2.indexed) := by
  have hmem : d ∈ c.indexed.seen ↔ d ∈ c.items := by simp [indexed, toList]
  by_cases hd : d ∈ c.items
  · rw [Indexed.push, if_pos (hmem.mpr hd), push, if_pos hd]
  · rw [Indexed.push, if_neg (mt hmem.mp hd), push, if_neg hd]
    have hset : insert d c.toList.toFinset = (c.toList ++ [d]).toFinset := by
      ext e
      rw [Finset.mem_insert, List.mem_toFinset, List.mem_toFinset, List.mem_append,
        List.mem_singleton, or_comm]
    simp only [indexed, toList, Array.toList_push] at hset ⊢
    rw [hset]

theorem extend_indexed (c : Collector) (ds : List Diagnostic) :
    c.indexed.extend ds = (c.extend ds).indexed := by
  induction ds generalizing c with
  | nil => rfl
  | cons d ds ih =>
    rw [extend_cons, ← ih, Indexed.extend, List.foldl_cons, push_indexed]
    rfl

theorem answer_indexed (c : Collector) (call : Call) :
    c.indexed.answer call = ((c.answer call).1, (c.answer call).2.indexed) := by
  cases call with
  | push d => simp [Indexed.answer, answer, push_indexed]
  | extend ds => simp [Indexed.answer, answer, extend_indexed]

/-! ### Calls one after the other -/

namespace Call

variable {σ : Type} {f : σ → Call → Option Bool × σ}

theorem drive_append (s : σ) (xs ys : List Call) :
    drive f s (xs ++ ys) =
      ((drive f s xs).1 ++ (drive f (drive f s xs).2 ys).1, (drive f (drive f s xs).2 ys).2) := by
  induction xs generalizing s with
  | nil => rfl
  | cons x xs ih => simp [drive, ih]

theorem length_drive (s : σ) (calls : List Call) : (drive f s calls).1.length = calls.length := by
  induction calls generalizing s with
  | nil => rfl
  | cons call calls ih => simp [drive, ih]

/-- What the first call behind others tells. -/
theorem told_drive (s : σ) (before : List Call) (call : Call) (after : List Call) :
    (drive f s (before ++ call :: after)).1[before.length]? =
      some (f (drive f s before).2 call).1 := by
  rw [drive_append, List.getElem?_append_right (by rw [length_drive]), length_drive, Nat.sub_self]
  rfl

end Call

theorem drive_first (calls : List Call) (h : c.toList = os.eraseDups) :
    (Call.drive answer c calls).2.toList = (os ++ Call.offered calls).eraseDups := by
  induction calls generalizing c os with
  | nil => simpa [Call.drive, Call.offered] using h
  | cons call calls ih =>
    have hnext := ih (answer_first h call)
    rwa [List.append_assoc] at hnext

theorem drive_empty (calls : List Call) :
    (Call.drive answer empty calls).2.toList = (Call.offered calls).eraseDups := by
  have hnone : empty.toList = ([] : List Diagnostic).eraseDups := rfl
  exact drive_first calls hnone

theorem drive_indexed (c : Collector) (calls : List Call) :
    Call.drive Indexed.answer c.indexed calls =
      ((Call.drive answer c calls).1, (Call.drive answer c calls).2.indexed) := by
  induction calls generalizing c with
  | nil => rfl
  | cons call calls ih => simp [Call.drive, answer_indexed, ih]

theorem drive_push_map (c : Collector) (ds : List Diagnostic) :
    (Call.drive answer c (ds.map .push)).2 = c.extend ds := by
  induction ds generalizing c with
  | nil => rfl
  | cons d ds ih => exact ih (c.push d).2

/-- Calls in any order keep the first occurrences of all that they offer. -/
theorem firstOnly_drive (calls : List Call) :
    FirstOnly calls (Call.drive answer empty calls).1 (Call.drive answer empty calls).2 := by
  have hitems := drive_empty calls
  constructor
  · exact hitems
  · rw [hitems]
    exact nodup_eraseDups _
  · rintro before d after rfl
    rw [Call.told_drive, answer, (push_first (drive_empty before) d).1]
  · rintro before ds after rfl
    refine ⟨Call.told_drive _ _ _ _, ?_⟩
    rw [Call.drive_append, Call.drive_append, Call.drive_append, drive_push_map]
    rfl
  · rw [← hitems]
    rfl
  · rw [← hitems, errorCount, List.countP_eq_length_filter]
    rfl
  · rw [hasErrors, decide_eq_true_iff, errorCount, List.countP_pos_iff, hitems]
    simp only [List.mem_eraseDups, Diagnostic.isError, decide_eq_true_iff]
  · exact drive_indexed empty calls

end Collector

end SandboxProfile
