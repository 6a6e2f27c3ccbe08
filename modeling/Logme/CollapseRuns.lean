import Logme.DoLog

/-!
# Runs of equal keys

`ApplyCollapse` is called with one text after another.  Where the keys of the
texts are equal the calls form a run; the accounting of a run compares what
the repeat records report with what was held back before them.
-/

namespace Logme

/-- Positions `start` to `start + length - 1` are a maximal run of one key. -/
structure RunAt (keys : List (List UInt8)) (start length : Nat) (key : List UInt8) : Prop where
  nonempty : 0 < length
  equal : ∀ j < length, keys[start + j]? = some key
  begins : start = 0 ∨ keys[start - 1]? ≠ some key
  ends : keys[start + length]? ≠ some key

/-- The records held back since the last output. -/
def heldBack : List (Option Nat) → Nat
  | [] => 0
  | none :: earlier => heldBack earlier + 1
  | some _ :: _ => 0

/-- The outputs of a run in front of position `j` of the run. -/
def outputsBefore (outputs : List (Option Nat)) (start j : Nat) : List (Option Nat) :=
  (outputs.drop start).take j

namespace CollapseCache

/-- The state that the constructors leave. -/
def fresh (mode : CollapseMode) (limit intervalMs : Nat)
    (normalize : List UInt8 → List UInt8) : CollapseCache where
  mode := mode
  limit := limit
  intervalMs := intervalMs
  lastKey := []
  lastOutputTime := 0
  repeatCount := 0
  normalize := normalize

def after (cache : CollapseCache) (calls : List (Nat × List UInt8)) : CollapseCache :=
  calls.foldl (fun cache call => (cache.apply call.1 call.2).2) cache

/-- What one call after another returns. -/
def outputs : CollapseCache → List (Nat × List UInt8) → List (Option Nat)
  | _, [] => []
  | cache, call :: calls =>
      (cache.apply call.1 call.2).1 :: outputs (cache.apply call.1 call.2).2 calls

/-- Every first record of a run is output, and with it one record out of
`limit` repeats. -/
structure CountsRuns (limit : Nat) (keys : List (List UInt8)) (outputs : List (Option Nat)) :
    Prop where
  first : ∀ start length key, RunAt keys start length key → outputs[start]? ≠ some none
  number : ∀ start length key, RunAt keys start length key →
    (outputsBefore outputs start length).countP Option.isSome = 1 + (length - 1) / limit
  repeats : ∀ start length key, RunAt keys start length key → ∀ j count, 0 < j → j < length →
    outputs[start + j]? = some (some count) →
    count = heldBack (outputsBefore outputs start j).reverse + 1

/-- A repeat record reports what was held back since the last output. -/
def TimesRuns (keys : List (List UInt8)) (outputs : List (Option Nat)) : Prop :=
  ∀ start length key, RunAt keys start length key → ∀ j count, 0 < j → j < length →
    outputs[start + j]? = some (some count) →
    count = heldBack (outputsBefore outputs start j).reverse

/-- The accounting of the mode. -/
def Accounts (cache : CollapseCache) (calls : List (Nat × List UInt8)) : Prop :=
  let keys := calls.map fun call => cache.normalize call.2
  match cache.mode with
  | .count => CountsRuns cache.limit keys (cache.outputs calls)
  | .time => TimesRuns keys (cache.outputs calls)

/-! ## One call after another -/

section Calls

variable {cache : CollapseCache} {calls : List (Nat × List UInt8)}

@[simp] theorem length_outputs (cache : CollapseCache) (calls : List (Nat × List UInt8)) :
    (cache.outputs calls).length = calls.length := by
  induction calls generalizing cache with
  | nil => rfl
  | cons call calls ih => rw [outputs, List.length_cons, ih, List.length_cons]

theorem apply_settings (cache : CollapseCache) (now : Nat) (text : List UInt8) :
    (cache.apply now text).2.normalize = cache.normalize ∧
      (cache.apply now text).2.mode = cache.mode ∧
      (cache.apply now text).2.limit = cache.limit ∧
      (cache.apply now text).2.intervalMs = cache.intervalMs := by
  unfold apply
  split
  · exact ⟨rfl, rfl, rfl, rfl⟩
  · split
    · exact ⟨rfl, rfl, rfl, rfl⟩
    · cases cache.mode <;> dsimp only <;> split <;> exact ⟨rfl, rfl, rfl, rfl⟩

/-- The calls change neither the mode nor the limits. -/
theorem after_settings (cache : CollapseCache) (calls : List (Nat × List UInt8)) :
    (cache.after calls).normalize = cache.normalize ∧
      (cache.after calls).mode = cache.mode ∧ (cache.after calls).limit = cache.limit ∧
      (cache.after calls).intervalMs = cache.intervalMs := by
  induction calls generalizing cache with
  | nil => exact ⟨rfl, rfl, rfl, rfl⟩
  | cons call calls ih =>
      have hsettings := cache.apply_settings call.1 call.2
      have hrest := ih (cache.apply call.1 call.2).2
      rw [hsettings.1, hsettings.2.1, hsettings.2.2.1, hsettings.2.2.2] at hrest
      exact hrest

theorem after_off (cache : CollapseCache) (calls : List (Nat × List UInt8)) :
    (cache.after calls).off = cache.off := by
  have hsettings := cache.after_settings calls
  unfold off
  rw [hsettings.2.1, hsettings.2.2.1, hsettings.2.2.2]

theorem getElem?_outputs (cache : CollapseCache) {i : Nat} {call : Nat × List UInt8}
    (hcall : calls[i]? = some call) :
    (cache.outputs calls)[i]? = some ((cache.after (calls.take i)).apply call.1 call.2).1 := by
  induction calls generalizing cache i with
  | nil => simp at hcall
  | cons first calls ih =>
      cases i with
      | zero =>
          simp only [List.getElem?_cons_zero, Option.some.injEq] at hcall
          subst call
          rfl
      | succ i =>
          rw [List.getElem?_cons_succ] at hcall
          rw [outputs, List.getElem?_cons_succ, ih _ hcall]
          rfl

theorem after_take_succ (cache : CollapseCache) {i : Nat} {call : Nat × List UInt8}
    (hcall : calls[i]? = some call) :
    cache.after (calls.take (i + 1)) =
      ((cache.after (calls.take i)).apply call.1 call.2).2 := by
  rw [List.take_add_one, hcall, after, List.foldl_append]
  rfl

end Calls

/-! ## What one call does -/

section Apply

variable {cache : CollapseCache} (now : Nat) {text : List UInt8}

theorem apply_off (hoff : cache.off = true) : cache.apply now text = (some 0, cache) := by
  rw [apply, if_pos hoff]

theorem apply_new (hon : cache.off = false) (hkey : cache.lastKey ≠ cache.normalize text) :
    cache.apply now text = (some 0,
      { cache with
        lastKey := cache.normalize text
        lastOutputTime := now
        repeatCount := 0 }) := by
  rw [apply, if_neg (by simp [hon]), if_pos hkey]

theorem apply_lastKey (hon : cache.off = false) :
    (cache.apply now text).2.lastKey = cache.normalize text := by
  by_cases hkey : cache.lastKey = cache.normalize text
  · unfold apply
    rw [if_neg (by simp [hon]), if_neg (not_not.mpr hkey)]
    cases cache.mode <;> dsimp only <;> split <;> exact hkey
  · rw [apply_new now hon hkey]

/-- A repeated record is held back, or reports what was held back. -/
theorem apply_repeated (hon : cache.off = false) (hkey : cache.lastKey = cache.normalize text) :
    ((cache.apply now text).1 = none ∧
        (cache.apply now text).2.repeatCount = cache.repeatCount + 1 ∧
        (cache.mode = .count → cache.repeatCount + 1 < cache.limit)) ∨
      ((cache.apply now text).2.repeatCount = 0 ∧
        ((cache.mode = .count ∧ (cache.apply now text).1 = some (cache.repeatCount + 1) ∧
            cache.limit ≤ cache.repeatCount + 1) ∨
          (cache.mode = .time ∧ (cache.apply now text).1 = some cache.repeatCount))) := by
  unfold apply
  rw [if_neg (by simp [hon]), if_neg (not_not.mpr hkey)]
  cases hmode : cache.mode with
  | count =>
      dsimp only
      by_cases hless : cache.repeatCount + 1 < cache.limit
      · rw [if_pos hless]
        exact .inl ⟨rfl, rfl, fun _ => hless⟩
      · rw [if_neg hless]
        exact .inr ⟨rfl, .inl ⟨rfl, rfl, Nat.not_lt.mp hless⟩⟩
  | time =>
      dsimp only
      by_cases hearly : elapsed now cache.lastOutputTime < cache.intervalMs
      · rw [if_pos hearly]
        exact .inl ⟨rfl, rfl, nofun⟩
      · rw [if_neg hearly]
        exact .inr ⟨rfl, .inr ⟨rfl, rfl⟩⟩

end Apply

/-! ## The accounting inside a run -/

theorem outputsBefore_succ {outputs : List (Option Nat)} {start j : Nat} {output : Option Nat}
    (houtput : outputs[start + j]? = some output) :
    outputsBefore outputs start (j + 1) = outputsBefore outputs start j ++ [output] := by
  rw [outputsBefore, List.take_add_one, List.getElem?_drop, houtput]
  rfl

/-- After `j` records of a run. -/
structure InRun (cache : CollapseCache) (calls : List (Nat × List UInt8)) (start j : Nat)
    (key : List UInt8) : Prop where
  lastKey : (cache.after (calls.take (start + j))).lastKey = key
  repeatCount : (cache.after (calls.take (start + j))).repeatCount =
    heldBack (outputsBefore (cache.outputs calls) start j).reverse
  limited : cache.mode = .count →
    (cache.after (calls.take (start + j))).repeatCount < cache.limit
  counted : cache.mode = .count → 0 < j →
    cache.limit * (outputsBefore (cache.outputs calls) start j).countP Option.isSome +
      (cache.after (calls.take (start + j))).repeatCount + 1 = j + cache.limit

section Run

variable {cache : CollapseCache} {calls : List (Nat × List UInt8)} {start j : Nat}
  {key : List UInt8} {call : Nat × List UInt8}

theorem limit_pos (hon : cache.off = false) (hmode : cache.mode = .count) : 0 < cache.limit := by
  rw [off, hmode] at hon
  exact Nat.pos_of_ne_zero (of_decide_eq_false hon)

/-- A run begins with an output when the key is not the one before. -/
theorem inRun_first (hon : cache.off = false) (hcall : calls[start]? = some call)
    (hkey : (cache.after (calls.take start)).lastKey ≠ cache.normalize call.2) :
    (cache.outputs calls)[start]? = some (some 0) ∧
      cache.InRun calls start 1 (cache.normalize call.2) := by
  have hnormalize := (cache.after_settings (calls.take start)).1
  have happly := apply_new call.1 ((cache.after_off _).trans hon)
    (hnormalize.symm ▸ hkey)
  have houtput := cache.getElem?_outputs hcall
  have hafter := cache.after_take_succ hcall
  rw [happly] at houtput hafter
  have hbefore : outputsBefore (cache.outputs calls) start 1 = [some 0] :=
    outputsBefore_succ houtput
  refine ⟨houtput, ?_, ?_, ?_, ?_⟩
  · rw [hafter]
    exact congrFun hnormalize call.2
  · rw [hafter, hbefore]
    rfl
  · intro hmode
    rw [hafter]
    exact limit_pos hon hmode
  · intro hmode _
    rw [hafter, hbefore]
    simp only [List.countP_singleton, Option.isSome_some, if_true]
    omega

/-- A further record of a run is held back and counted, or reports what was held
back. -/
theorem InRun.next (h : cache.InRun calls start j key) (hon : cache.off = false)
    (hcall : calls[start + j]? = some call) (hkey : cache.normalize call.2 = key) {held : Nat}
    (hheld : (cache.after (calls.take (start + j))).repeatCount = held) :
    (cache.after (calls.take (start + (j + 1)))).lastKey = key ∧
      ∃ output, (cache.outputs calls)[start + j]? = some output ∧
        ((output = none ∧
            (cache.after (calls.take (start + (j + 1)))).repeatCount = held + 1 ∧
            (cache.mode = .count → held + 1 < cache.limit)) ∨
          ((cache.after (calls.take (start + (j + 1)))).repeatCount = 0 ∧
            ((cache.mode = .count ∧ output = some (held + 1) ∧ cache.limit ≤ held + 1) ∨
              (cache.mode = .time ∧ output = some held)))) := by
  obtain ⟨hnormalize, hmode, hlimit, -⟩ := cache.after_settings (calls.take (start + j))
  have hon' : (cache.after (calls.take (start + j))).off = false := (cache.after_off _).trans hon
  have hsame : (cache.after (calls.take (start + j))).lastKey =
      (cache.after (calls.take (start + j))).normalize call.2 := by
    rw [h.lastKey, hnormalize, hkey]
  have hafter : cache.after (calls.take (start + (j + 1))) =
      ((cache.after (calls.take (start + j))).apply call.1 call.2).2 :=
    cache.after_take_succ hcall
  have hrepeated := apply_repeated call.1 hon' hsame
  rw [hmode, hlimit, hheld, ← hafter] at hrepeated
  refine ⟨?_, _, cache.getElem?_outputs hcall, hrepeated⟩
  rw [hafter, apply_lastKey call.1 hon', hnormalize, hkey]

/-- Every further record keeps the accounting. -/
theorem InRun.step (h : cache.InRun calls start j key) (hon : cache.off = false)
    (hcall : calls[start + j]? = some call) (hkey : cache.normalize call.2 = key)
    (hbegun : cache.mode = .count → j = 0 → cache.limit = 1) :
    cache.InRun calls start (j + 1) key := by
  have hcount := h.repeatCount
  have hlimited := h.limited
  have hcounted := h.counted
  obtain ⟨hlast, output, houtput, hnext⟩ := h.next hon hcall hkey rfl
  have hbefore := outputsBefore_succ houtput
  generalize (cache.after (calls.take (start + j))).repeatCount = held at *
  refine ⟨hlast, ?_, ?_, ?_⟩
  · rw [hbefore, List.reverse_append, List.reverse_singleton, List.singleton_append]
    obtain ⟨rfl, hheld, -⟩ | ⟨hheld, ⟨-, rfl, -⟩ | ⟨-, rfl⟩⟩ := hnext
    · rw [hheld, hcount, heldBack]
    · exact hheld
    · exact hheld
  · intro hmode
    obtain ⟨-, hheld, hless⟩ | ⟨hheld, -⟩ := hnext
    · rw [hheld]
      exact hless hmode
    · rw [hheld]
      exact limit_pos hon hmode
  · intro hmode _
    have hbound := hlimited hmode
    rw [hbefore, List.countP_append, Nat.mul_add]
    obtain ⟨rfl, hheld, hless⟩ | ⟨hheld, ⟨-, rfl, hle⟩ | ⟨htime, -⟩⟩ := hnext
    · have hpos : 0 < j := by
        by_contra hzero
        have hone := hbegun hmode (by omega)
        have hlt := hless hmode
        omega
      have hsofar := hcounted hmode hpos
      simp only [List.countP_singleton, Option.isSome_none, Bool.false_eq_true, if_false]
      omega
    · simp only [List.countP_singleton, Option.isSome_some, if_true]
      by_cases hpos : 0 < j
      · have hsofar := hcounted hmode hpos
        omega
      · have hzero : j = 0 := by omega
        have hone := hbegun hmode hzero
        have hnone : outputsBefore (cache.outputs calls) start j = [] := by
          rw [outputsBefore, hzero, List.take_zero]
        rw [hnone, List.countP_nil]
        omega
    · rw [hmode] at htime
      exact absurd htime (by decide)

/-- A repeat record reports what was held back, with itself where records are
counted. -/
theorem InRun.reports (h : cache.InRun calls start j key) (hon : cache.off = false)
    (hcall : calls[start + j]? = some call) (hkey : cache.normalize call.2 = key) {count : Nat}
    (hcount : (cache.outputs calls)[start + j]? = some (some count)) :
    (cache.mode = .count →
        count = heldBack (outputsBefore (cache.outputs calls) start j).reverse + 1) ∧
      (cache.mode = .time →
        count = heldBack (outputsBefore (cache.outputs calls) start j).reverse) := by
  obtain ⟨-, output, houtput, hnext⟩ := h.next hon hcall hkey h.repeatCount
  rw [hcount, Option.some.injEq] at houtput
  subst output
  obtain ⟨hnone, -⟩ | ⟨-, ⟨hmode, hsome, -⟩ | ⟨hmode, hsome⟩⟩ := hnext
  · exact absurd hnone (by simp)
  · rw [Option.some.injEq] at hsome
    exact ⟨fun _ => hsome, fun htime => absurd (hmode.symm.trans htime) (by decide)⟩
  · rw [Option.some.injEq] at hsome
    exact ⟨fun hcount => absurd (hmode.symm.trans hcount) (by decide), fun _ => hsome⟩

end Run

/-! ## All runs of a sequence -/

section Fresh

variable {cache : CollapseCache} {calls : List (Nat × List UInt8)} {start length j : Nat}
  {key : List UInt8}

theorem call_of_key {i : Nat}
    (hkey : (calls.map fun call => cache.normalize call.2)[i]? = some key) :
    ∃ call, calls[i]? = some call ∧ cache.normalize call.2 = key := by
  rw [List.getElem?_map] at hkey
  exact Option.map_eq_some_iff.mp hkey

/-- The key before a later run is another one. -/
theorem lastKey_ne (hon : cache.off = false)
    (hrun : RunAt (calls.map fun call => cache.normalize call.2) start length key)
    (hstart : 0 < start) : (cache.after (calls.take start)).lastKey ≠ key := by
  obtain ⟨i, rfl⟩ := Nat.exists_eq_succ_of_ne_zero hstart.ne'
  have hlong : i + 1 < calls.length := by
    obtain ⟨call, hcall, -⟩ := call_of_key (hrun.equal 0 hrun.nonempty)
    exact (List.getElem?_eq_some_iff.mp hcall).1
  have hcall : calls[i]? = some calls[i] := List.getElem?_eq_getElem (by omega)
  have hbegins := hrun.begins.resolve_left (Nat.succ_ne_zero i)
  rw [Nat.succ_eq_add_one, Nat.add_sub_cancel, List.getElem?_map, hcall] at hbegins
  rw [Nat.succ_eq_add_one, cache.after_take_succ hcall,
    apply_lastKey _ ((cache.after_off _).trans hon), (cache.after_settings _).1]
  intro hsame
  rw [← hsame] at hbegins
  exact hbegins rfl

/-- Where the first key is empty, the constructor's state passes for that of a
run which has begun. -/
theorem inRun_fresh (hon : cache.off = false) (hkey : cache.lastKey = [])
    (hrepeat : cache.repeatCount = 0) : cache.InRun calls 0 0 [] where
  lastKey := hkey
  repeatCount := hrepeat
  limited hmode := by
    change cache.repeatCount < cache.limit
    rw [hrepeat]
    exact limit_pos hon hmode
  counted _ hpos := absurd hpos (Nat.lt_irrefl 0)

/-- The accounting holds all along a run, the first run of an empty key apart. -/
theorem inRun_of_runAt (hon : cache.off = false) (hkey : cache.lastKey = [])
    (hrepeat : cache.repeatCount = 0)
    (hrun : RunAt (calls.map fun call => cache.normalize call.2) start length key)
    (hbegun : cache.mode = .count → cache.limit = 1 ∨ start ≠ 0 ∨ key ≠ [])
    {j : Nat} (hpos : 0 < j) (hj : j ≤ length) : cache.InRun calls start j key := by
  induction j with
  | zero => exact absurd hpos (Nat.lt_irrefl 0)
  | succ j ih =>
      obtain ⟨call, hcall, rfl⟩ := call_of_key (hrun.equal j hj)
      by_cases hzero : j = 0
      · subst j
        rw [Nat.add_zero] at hcall
        -- a first record is taken for a repeated one only against the empty key at the start
        by_cases hsame : (cache.after (calls.take start)).lastKey = cache.normalize call.2
        · have hstart : start = 0 := by
            by_contra hne
            exact lastKey_ne hon hrun (Nat.pos_of_ne_zero hne) hsame
          subst start
          have hempty : cache.normalize call.2 = [] := hsame.symm.trans hkey
          have hfirst : cache.InRun calls 0 0 (cache.normalize call.2) := by
            rw [hempty]
            exact inRun_fresh hon hkey hrepeat
          refine hfirst.step hon hcall rfl fun hmode _ => ?_
          exact (hbegun hmode).resolve_right fun hor => hor.elim (· rfl) (· hempty)
        · exact (inRun_first hon hcall hsame).2
      · have hbefore := ih (Nat.pos_of_ne_zero hzero) (Nat.le_of_succ_le hj)
        exact hbefore.step hon hcall rfl fun _ h => absurd h hzero

theorem InRun.first_output (h : cache.InRun calls start 1 key) (hmode : cache.mode = .count) :
    (cache.outputs calls)[start]? ≠ some none := by
  intro hnone
  have hbefore : outputsBefore (cache.outputs calls) start 1 = [none] :=
    outputsBefore_succ hnone
  have hcounted := h.counted hmode Nat.one_pos
  have hlimited := h.limited hmode
  rw [hbefore] at hcounted
  simp only [List.countP_singleton, Option.isSome_none, Bool.false_eq_true, if_false] at hcounted
  omega

/-- `n` records of a run give one output and one more for `limit` repeats. -/
theorem InRun.number (h : cache.InRun calls start j key) (hmode : cache.mode = .count)
    (hpos : 0 < j) :
    (outputsBefore (cache.outputs calls) start j).countP Option.isSome =
      1 + (j - 1) / cache.limit := by
  have hcounted := h.counted hmode hpos
  have hlimited := h.limited hmode
  generalize (cache.after (calls.take (start + j))).repeatCount = held at hcounted hlimited
  generalize (outputsBefore (cache.outputs calls) start j).countP Option.isSome = number at *
  cases number with
  | zero => omega
  | succ number =>
      have hsplit : j - 1 = held + cache.limit * number := by
        rw [Nat.mul_add] at hcounted
        omega
      rw [hsplit, Nat.add_mul_div_left held number (by omega), Nat.div_eq_of_lt hlimited]
      omega

theorem outputs_off (hoff : cache.off = true) {i : Nat} {output : Option Nat}
    (houtput : (cache.outputs calls)[i]? = some output) : output = some 0 := by
  have hlong : i < calls.length := by
    rw [← length_outputs cache]
    exact (List.getElem?_eq_some_iff.mp houtput).1
  rw [cache.getElem?_outputs (List.getElem?_eq_getElem hlong),
    apply_off _ ((cache.after_off _).trans hoff), Option.some.injEq] at houtput
  exact houtput.symm

/-- A sequence begins with a maximal run of its first key. -/
theorem exists_runAt {keys : List (List UInt8)} (hfirst : keys[0]? = some key) :
    ∃ length, RunAt keys 0 length key := by
  have hends : ∃ n : Nat, keys[n]? ≠ some key :=
    ⟨keys.length, by simp⟩
  classical
  refine ⟨Nat.find hends, ?_, fun j hj => ?_, .inl rfl, ?_⟩
  · by_contra hzero
    have hspec := Nat.find_spec hends
    rw [Nat.eq_zero_of_not_pos hzero] at hspec
    exact hspec hfirst
  · have hbefore := Nat.find_min hends hj
    rw [Nat.zero_add]
    exact not_not.mp hbefore
  · rw [Nat.zero_add]
    exact Nat.find_spec hends

/-- Where nothing is held back there is nothing to account for. -/
theorem timesRuns_off (hoff : cache.off = true) :
    TimesRuns (calls.map fun call => cache.normalize call.2) (cache.outputs calls) := by
  intro start length key hrun j count hpos hj hcount
  obtain ⟨i, rfl⟩ := Nat.exists_eq_succ_of_ne_zero hpos.ne'
  obtain ⟨call, hcall, -⟩ := call_of_key (hrun.equal i (by omega))
  have hlong : start + i < (cache.outputs calls).length := by
    rw [length_outputs]
    exact (List.getElem?_eq_some_iff.mp hcall).1
  have hprevious := List.getElem?_eq_getElem hlong
  have hbefore := outputsBefore_succ hprevious
  rw [outputs_off hoff hprevious] at hbefore
  rw [Nat.succ_eq_add_one, hbefore, List.reverse_append]
  exact Option.some.inj (outputs_off hoff hcount)

theorem timesRuns_on (hon : cache.off = false) (hkey : cache.lastKey = [])
    (hrepeat : cache.repeatCount = 0) (hmode : cache.mode = .time) :
    TimesRuns (calls.map fun call => cache.normalize call.2) (cache.outputs calls) := by
  intro start length key hrun j count hpos hj hcount
  have hcounts : cache.mode ≠ .count := by
    rw [hmode]
    decide
  obtain ⟨call, hcall, hcallKey⟩ := call_of_key (hrun.equal j hj)
  have hin := inRun_of_runAt hon hkey hrepeat hrun (fun h => absurd h hcounts) hpos hj.le
  exact (hin.reports hon hcall hcallKey hcount).2 hmode

/-- The accounting of the count mode, where no first run of an empty key holds
records back. -/
theorem countsRuns_of_begun (hon : cache.off = false) (hkey : cache.lastKey = [])
    (hrepeat : cache.repeatCount = 0) (hmode : cache.mode = .count)
    (hbegun : ∀ {start length key},
      RunAt (calls.map fun call => cache.normalize call.2) start length key →
      cache.limit = 1 ∨ start ≠ 0 ∨ key ≠ []) :
    CountsRuns cache.limit (calls.map fun call => cache.normalize call.2)
      (cache.outputs calls) := by
  have hin : ∀ {start length key},
      RunAt (calls.map fun call => cache.normalize call.2) start length key →
      ∀ {j}, 0 < j → j ≤ length → cache.InRun calls start j key :=
    fun hrun => inRun_of_runAt hon hkey hrepeat hrun fun _ => hbegun hrun
  refine ⟨fun start length key hrun => ?_, fun start length key hrun => ?_,
    fun start length key hrun j count hpos hj hcount => ?_⟩
  · exact (hin hrun Nat.one_pos hrun.nonempty).first_output hmode
  · exact (hin hrun hrun.nonempty (Nat.le_refl length)).number hmode hrun.nonempty
  · obtain ⟨call, hcall, hcallKey⟩ := call_of_key (hrun.equal j hj)
    exact ((hin hrun hpos hj.le).reports hon hcall hcallKey hcount).1 hmode

/-- The constructor's empty key makes a first record with an empty key a repeated
one, which is held back. -/
theorem first_held_back (hon : cache.off = false) (hkey : cache.lastKey = [])
    (hrepeat : cache.repeatCount = 0) (hmode : cache.mode = .count) (hlimit : 1 < cache.limit)
    {call : Nat × List UInt8} (hcall : calls[0]? = some call)
    (hempty : cache.normalize call.2 = []) : (cache.outputs calls)[0]? = some none := by
  have happly : (cache.apply call.1 call.2).1 = none := by
    obtain ⟨hnone, -⟩ | ⟨-, ⟨-, -, hle⟩ | ⟨htime, -⟩⟩ :=
      apply_repeated call.1 hon (hkey.trans hempty.symm)
    · exact hnone
    · rw [hrepeat] at hle
      exact absurd hle (Nat.not_le.mpr hlimit)
    · rw [hmode] at htime
      exact absurd htime (by decide)
  rw [cache.getElem?_outputs hcall]
  exact congrArg some happly

end Fresh

/-- What is held back is accounted for, unless the count mode meets the empty
key first and must hold records back. -/
theorem accounts_iff (mode : CollapseMode) (limit intervalMs : Nat)
    (normalize : List UInt8 → List UInt8) (calls : List (Nat × List UInt8))
    (hlimit : mode = .count → 0 < limit) :
    (fresh mode limit intervalMs normalize).Accounts calls ↔
      mode = .time ∨ limit = 1 ∨ ∀ call ∈ calls.head?, normalize call.2 ≠ [] := by
  cases mode with
  | time =>
      refine ⟨fun _ => .inl rfl, fun _ => ?_⟩
      cases hoff : (fresh .time limit intervalMs normalize).off with
      | true => exact timesRuns_off hoff
      | false => exact timesRuns_on hoff rfl rfl rfl
  | count =>
      have hon : (fresh .count limit intervalMs normalize).off = false :=
        decide_eq_false (hlimit rfl).ne'
      constructor
      · intro haccounts
        by_contra hnot
        simp only [reduceCtorEq, false_or, not_or, not_forall, not_not] at hnot
        obtain ⟨hone, call, hcall, hempty⟩ := hnot
        have hcall : calls[0]? = some call := by
          rw [← List.head?_eq_getElem?]
          exact hcall
        have hfirst : (calls.map fun call => normalize call.2)[0]? = some [] := by
          rw [List.getElem?_map, hcall, Option.map_some, hempty]
        obtain ⟨length, hrun⟩ := exists_runAt hfirst
        have hless : 1 < limit := by
          have hpos := hlimit rfl
          omega
        exact haccounts.first 0 length [] hrun
          (first_held_back hon rfl rfl rfl hless hcall hempty)
      · intro hcondition
        refine countsRuns_of_begun hon rfl rfl rfl fun {start length key} hrun => ?_
        obtain htime | hone | hkeys := hcondition
        · exact absurd htime (by decide)
        · exact .inl hone
        · by_cases hstart : start = 0
          · subst start
            obtain ⟨call, hcall, rfl⟩ := call_of_key (hrun.equal 0 hrun.nonempty)
            rw [Nat.zero_add, ← List.head?_eq_getElem?] at hcall
            exact .inr (.inr (hkeys call hcall))
          · exact .inr (.inl hstart)

theorem accounts_iff_three :
    (fresh .count 3 0 id).Accounts [(0, [65]), (1, [65]), (2, [65]), (3, [65]), (4, [])] :=
  (accounts_iff .count 3 0 id _ fun _ => by decide).mpr (.inr (.inr (by decide)))

/-- The very first record, with an empty text, is held back. -/
theorem not_accounts_first_empty : ¬ (fresh .count 3 0 id).Accounts [(0, [])] := by
  intro haccounts
  have hrun : RunAt [[]] 0 1 [] := ⟨Nat.one_pos, fun j hj => by
    rw [Nat.lt_one_iff.mp hj]
    rfl, .inl rfl, by simp⟩
  exact haccounts.first 0 1 [] hrun rfl

end CollapseCache
end Logme
