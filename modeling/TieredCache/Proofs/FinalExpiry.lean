import TieredCache.Proofs.EntryPaths
import TieredCache.Proofs.LastWrite

/-!
# When expiry is final

An expired entry stays stored until something finds it. If it is displaced before that, the next
colder tier judges it by its own time to live and may hold it again. `Session.CarriedDown` says that
this happens in a run. Without it an expired entry is gone for good, whatever else happens.
-/

namespace TieredCache

namespace Hierarchy

variable {K V : Type} [DecidableEq K] {h : Hierarchy K V} {k : K} {now : Int}

theorem held_of_contains (hk : h.contains k now) :
    ∃ l e, (h.tier l).store.get? k = some e ∧ e.expired (h.tier l).ttl now = false := by
  obtain ⟨l, -, hl⟩ := List.any_eq_true.1 hk
  obtain ⟨e, he⟩ := (Tier.contains_iff _ k now).1 hl
  exact ⟨l, e, he⟩

theorem tier_putSpeculative {v : V} (hload : (h.putSpeculative k v now).1 = true) (l : Level) :
    h.contains k now = false ∧
      (h.putSpeculative k v now).2.tier l = (h.loaded k ⟨v, now⟩).tier l := by
  cases hheld : h.contains k now with
  | true =>
    rw [putSpeculative_eq, if_pos hheld] at hload
    exact absurd hload (by simp)
  | false =>
    rw [putSpeculative_eq, if_neg (by simp [hheld])]
    -- Whatever leaves the coldest tier has no tier to go to.
    exact ⟨rfl, tier_foldl_settle_of_not_mem (by simp [Level.below]) _ _⟩

/-- After an accepted speculative write all other entries of its key are expired. -/
theorem stored_after_load {v : V} {l : Level} {e : Entry V}
    (hload : (h.putSpeculative k v now).1 = true)
    (he : ((h.putSpeculative k v now).2.tier l).store.get? k = some e) :
    e = ⟨v, now⟩ ∨ l ≠ .cold ∧ (h.tier l).store.get? k = some e ∧
      e.expired (h.tier l).ttl now = true := by
  obtain ⟨hheld, htier⟩ := tier_putSpeculative hload l
  rw [htier, tier_loaded] at he
  by_cases hl : l = .cold
  · rw [if_pos hl, Tier.get?_put_self] at he
    exact .inl (Option.some.inj he).symm
  · rw [if_neg hl] at he
    refine .inr ⟨hl, he, ?_⟩
    by_contra hage
    rw [Bool.not_eq_true] at hage
    have hcontains := (Tier.contains_iff _ k now).2 ⟨e, he, hage⟩
    rw [(h.not_contains_iff k now).1 hheld l] at hcontains
    exact absurd hcontains (by simp)

end Hierarchy

namespace Session

variable {K V : Type}

/-- Whether an entry is too old for a tier. -/
def isExpired (s : Session K V) (l : Level) (e : Entry V) : Bool :=
  e.expired (s.hierarchy.tier l).ttl s.now

variable [DecidableEq K]

def Stores (s : Session K V) (l : Level) (k : K) (e : Entry V) : Prop :=
  (s.hierarchy.tier l).store.get? k = some e

/-- One operation of a run takes an entry from a tier to another one, while it is young enough for
the next colder one. -/
def CarriedDown (s : Session K V) (ops : List (Operation K V)) (l : Level) (k : K)
    (e : Entry V) : Prop :=
  ∃ before op after, ops = before ++ op :: after ∧
    let t := (s.run before).2
    t.Stores l k e ∧ (∃ next ∈ l.colder, t.isExpired next e = false) ∧
      ∃ m, m ≠ l ∧ (t.step op).2.Stores m k e

variable {s : Session K V} {ops : List (Operation K V)} {op : Operation K V} {k : K} {l : Level}
  {e : Entry V}

theorem isExpired_of_run (ops : List (Operation K V))
    (hage : (s.run ops).2.isExpired l e = false) : s.isExpired l e = false := by
  unfold isExpired at hage ⊢
  rw [ttl_run] at hage
  exact Entry.not_expired_earlier (s.now_le_run ops) hage

theorem not_carriedDown (hbelow : ∀ next ∈ l.colder, s.isExpired next e = true) :
    ¬ s.CarriedDown ops l k e := by
  rintro ⟨before, op, after, -, -, ⟨next, hnext, hage⟩, -⟩
  have hfalse := isExpired_of_run before hage
  rw [hbelow next hnext] at hfalse
  exact absurd hfalse (by simp)

theorem CarriedDown.cons (h : (s.step op).2.CarriedDown ops l k e) :
    s.CarriedDown (op :: ops) l k e := by
  obtain ⟨before, op', after, rfl, hcarried⟩ := h
  exact ⟨op :: before, op', after, rfl, hcarried⟩

/-- An entry may be in a tier later if it is there now, or if its tier holds it unexpired, or if it
is young enough for the next colder tier. -/
def MayReach (s : Session K V) (k : K) (e : Entry V) (l : Level) : Prop :=
  ∃ m, s.Stores m k e ∧
    (m = l ∨ s.isExpired m e = false ∨ ∃ next ∈ m.colder, s.isExpired next e = false)

theorem MayReach.move {target : Level} (h : s.MayReach k e l)
    (hmove : s.isExpired l e = false ∨ ∃ next ∈ l.colder, s.isExpired next e = false) :
    s.MayReach k e target := by
  obtain ⟨m, hm, rfl | hreason⟩ := h
  · exact ⟨m, hm, .inr hmove⟩
  · exact ⟨m, hm, .inr hreason⟩

theorem mayReach_of_run (hops : ∀ op ∈ ops, ∀ v, ¬ op.Writes k v)
    (he : (s.run ops).2.Stores l k e) : s.MayReach k e l := by
  have hall := everywhere_run (fun l => (s.hierarchy.tier l).ttl) (fun j _ => j ≠ k)
    (fun now l j e => j = k → s.now ≤ now ∧ s.MayReach k e l) ?_ ?_ ?_ s ops ?_ ?_ fun _ => rfl
  · exact (hall.stored l k e he rfl).2
  · intro now
    constructor
    · intro l next j e hnext hage hreach hj
      obtain ⟨hnow, hreach⟩ := hreach hj
      exact ⟨hnow, hreach.move (.inr ⟨next, hnext, Entry.not_expired_earlier hnow hage⟩)⟩
    · intro l target j e hlive _ hreach hj
      obtain ⟨hnow, hreach⟩ := hreach hj
      exact ⟨hnow, hreach.move (.inl (Entry.not_expired_earlier hnow hlive))⟩
  · intro now time l j e hreach hj
    obtain ⟨hnow, hreach⟩ := hreach hj
    exact ⟨hnow.trans (Int.le_add_of_nonneg_right (Int.natCast_nonneg time)), hreach⟩
  · intro now l j v hj hk
    exact absurd hk hj
  · rintro op hop j v hwrites rfl
    exact hops op hop v hwrites
  · rintro m j d hd rfl
    exact ⟨Int.le_refl _, m, hd, .inl rfl⟩

/-! ### Refused writes -/

/-- No value is accepted for a key in a run, though some may be refused. -/
def Unwritten (s : Session K V) (ops : List (Operation K V)) (k : K) : Prop :=
  ∀ before op after, ops = before ++ op :: after → ∀ v, ¬ (s.run before).2.Accepts k v op

theorem unwritten_cons : s.Unwritten (op :: ops) k ↔
    (∀ v, ¬ s.Accepts k v op) ∧ (s.step op).2.Unwritten ops k := by
  constructor
  · intro h
    refine ⟨h [] op ops rfl, ?_⟩
    rintro before op' after rfl
    exact h (op :: before) op' after rfl
  · rintro ⟨hop, hrest⟩ before op' after hsplit
    cases before with
    | nil =>
      obtain ⟨rfl, rfl⟩ := List.cons.inj hsplit
      exact hop
    | cons first before =>
      obtain ⟨rfl, rfl⟩ := List.cons.inj hsplit
      exact hrest before op' after rfl

theorem writes_of_accepts {v : V} (h : s.Accepts k v op) : op.Writes k v := by
  cases op with
  | put j w => exact h
  | putSpeculative j w => exact ⟨h.1, h.2.1⟩
  | loadAhead keys load =>
    obtain ⟨front, back, rfl, hload, -⟩ := h
    exact ⟨by simp, hload⟩
  | _ => exact h.elim

theorem unwritten_of_not_writes (hops : ∀ op ∈ ops, ∀ v, ¬ op.Writes k v) : s.Unwritten ops k := by
  rintro before op after rfl v haccepts
  exact hops op (by simp) v (writes_of_accepts haccepts)

/-- An operation whose values for a key are refused does what some operation does that has none. -/
theorem exists_not_writes (hop : ∀ v, ¬ s.Accepts k v op) :
    ∃ op' : Operation K V, (∀ v, ¬ op'.Writes k v) ∧ (s.step op').2 = (s.step op).2 := by
  cases op with
  | put j w => exact ⟨.put j w, hop, rfl⟩
  | putSpeculative j w =>
    by_cases hj : j = k
    · refine ⟨.contains k, fun _ => id, ?_⟩
      have hrefused : ¬ (s.hierarchy.putSpeculative j w s.now).1 :=
        fun haccepted => hop w ⟨hj, rfl, haccepted⟩
      exact congrArg s.setHierarchy (Hierarchy.putSpeculative_of_refused hrefused).symm
    · exact ⟨.putSpeculative j w, fun v hwrites => hj hwrites.1, rfl⟩
  | loadAhead keys load =>
    refine ⟨.loadAhead (keys.filter (· ≠ k)) load, ?_, ?_⟩
    · rintro v ⟨hmem, -⟩
      exact absurd rfl (of_decide_eq_true (List.mem_filter.1 hmem).2)
    · exact congrArg s.setHierarchy (Hierarchy.loadAll_without hop)
  | _ =>
    refine ⟨_, ?_, rfl⟩
    exact hop

theorem mayReach_of_step (hop : ∀ v, ¬ s.Accepts k v op) (he : (s.step op).2.Stores l k e) :
    s.MayReach k e l := by
  obtain ⟨op', hop', hsame⟩ := exists_not_writes hop
  have hone : (s.run [op']).2.Stores l k e := hsame ▸ he
  exact mayReach_of_run (by simpa using hop') hone

/-- A key that is held after a run without accepted writes of it was held before, or an entry of it
was carried down. -/
theorem origin_of_held (hops : s.Unwritten ops k) (he : (s.run ops).2.Stores l k e)
    (hage : (s.run ops).2.isExpired l e = false) :
    ∃ m, s.Stores m k e ∧ (s.isExpired m e = false ∨ s.CarriedDown ops m k e) := by
  -- The entry is traced back to just after the first operation, and then over that one.
  induction ops generalizing s with
  | nil => exact ⟨l, he, .inl hage⟩
  | cons op rest ih =>
    obtain ⟨hop, hrest⟩ := unwritten_cons.1 hops
    obtain ⟨l', hl', hreason⟩ := ih hrest he hage
    obtain ⟨m, hm, hreach⟩ := mayReach_of_step hop hl'
    refine ⟨m, hm, ?_⟩
    by_cases hsame : m = l'
    · subst hsame
      rcases hreason with hlive | hcarried
      · exact .inl (isExpired_of_run [op] hlive)
      · exact .inr hcarried.cons
    · rcases hreach.resolve_left hsame with hlive | hyoung
      · exact .inl hlive
      · exact .inr ⟨[], op, rest, rfl, hm, hyoung, l', Ne.symm hsame, hl'⟩

/-- After a run without writes of a key, an entry that was expired is not what a lookup of the key
finds, nor why the key is held, unless it was carried down. Once it is too old for the next colder
tier as well, that does not happen. -/
theorem expiry_final_unless_carried_down (hops : ∀ op ∈ ops, ∀ v, ¬ op.Writes k v)
    (hstored : s.Stores l k e) (hage : s.isExpired l e = true) :
    let t := (s.run ops).2
    ((∀ next ∈ l.colder, s.isExpired next e = true) → ¬ s.CarriedDown ops l k e) ∧
    (¬ s.CarriedDown ops l k e →
      (∀ v, (t.hierarchy.get k t.now).1 = some v →
        ∃ m d, m ≠ l ∧ s.Stores m k d ∧ (s.isExpired m d = false ∨ s.CarriedDown ops m k d) ∧
          d.value = v) ∧
      (t.hierarchy.contains k t.now →
        ∃ m d, m ≠ l ∧ s.Stores m k d ∧ (s.isExpired m d = false ∨ s.CarriedDown ops m k d))) := by
  intro t
  refine ⟨not_carriedDown, fun hcarried => ?_⟩
  have hother : ∀ l' d, t.Stores l' k d → t.isExpired l' d = false →
      ∃ m, m ≠ l ∧ s.Stores m k d ∧ (s.isExpired m d = false ∨ s.CarriedDown ops m k d) := by
    intro l' d hd hlive
    obtain ⟨m, hm, hreason⟩ := origin_of_held (unwritten_of_not_writes hops) hd hlive
    refine ⟨m, ?_, hm, hreason⟩
    -- In its own tier the entry can be found only once it was carried down.
    rintro rfl
    have hsame : d = e := Option.some.inj (hm.symm.trans hstored)
    subst hsame
    rcases hreason with hlive | hcarried'
    · rw [hage] at hlive
      exact absurd hlive (by simp)
    · exact hcarried hcarried'
  constructor
  · intro v hget
    obtain ⟨l', d, hd, hlive, hv⟩ := Hierarchy.held_of_get hget
    obtain ⟨m, hne, hm, hreason⟩ := hother l' d hd hlive
    exact ⟨m, d, hne, hm, hreason, hv⟩
  · intro hcontains
    obtain ⟨l', d, hd, hlive⟩ := Hierarchy.held_of_contains hcontains
    obtain ⟨m, hne, hm, hreason⟩ := hother l' d hd hlive
    exact ⟨m, d, hne, hm, hreason⟩

/-- A write displaces an entry that is too old for its tier and for the next colder one. -/
theorem expiry_final_past_two_tiers :
    let s := (narrowStart.run [.put 1 10, .advance 11]).2
    let t := (s.run [.put 2 20]).2
    s.Stores .hot 1 ⟨10, 0⟩ ∧ s.isExpired .hot ⟨10, 0⟩ ∧ s.isExpired .warm ⟨10, 0⟩ ∧
      (t.hierarchy.tier .hot).store.contains 1 = false ∧
      (t.hierarchy.get 1 t.now).1 = none ∧ t.hierarchy.contains 1 t.now = false := by
  intro s t
  have hops : ∀ op ∈ ([.put 2 20] : List (Operation Nat Nat)), ∀ v, ¬ op.Writes 1 v := by
    simp [Operation.Writes]
  have hwarm : ∀ next ∈ Level.hot.colder, s.isExpired next ⟨10, 0⟩ = true := by decide
  have honly : ∀ m d, m ≠ .hot → ¬ s.Stores m 1 d := by
    intro m d hm hd
    have hnone : (s.hierarchy.tier m).store.get? 1 = none := by
      cases m
      · exact absurd rfl hm
      · decide
      · decide
    exact absurd (hnone.symm.trans hd) (by simp)
  obtain ⟨hnever, hfinal⟩ := expiry_final_unless_carried_down (s := s) hops (l := .hot)
    (e := ⟨10, 0⟩) (by rfl) (by decide)
  obtain ⟨hget, hcontains⟩ := hfinal (hnever hwarm)
  refine ⟨rfl, by decide, by decide, by decide, ?_, ?_⟩
  · rw [Option.eq_none_iff_forall_ne_some]
    intro v hv
    obtain ⟨m, d, hm, hd, -⟩ := hget v hv
    exact honly m d hm hd
  · rw [← Bool.not_eq_true]
    intro hheld
    obtain ⟨m, d, hm, hd, -⟩ := hcontains hheld
    exact honly m d hm hd

/-- An entry that has expired in the hottest tier is carried down and held again. -/
theorem expired_entry_held_again :
    let s := (narrowStart.run [.put 1 10, .advance 6]).2
    let t := (s.run [.put 2 20]).2
    Hierarchy.new narrow (fun _ => 0) = .ok narrowStart.hierarchy ∧
      s.Stores .hot 1 ⟨10, 0⟩ ∧ s.isExpired .hot ⟨10, 0⟩ ∧
      s.hierarchy.contains 1 s.now = false ∧ t.hierarchy.contains 1 t.now = true ∧
      (t.hierarchy.get 1 t.now).1 = some 10 :=
  ⟨rfl, rfl, by decide, by decide, by decide, by decide⟩

/-- After an accepted speculative write, and until another write of its key is accepted, a lookup
finds its value, unless an expired entry that it has left in place is carried down. -/
theorem found_after_load {v w : V} (hload : (s.hierarchy.putSpeculative k v s.now).1 = true)
    (hops : (s.step (.putSpeculative k v)).2.Unwritten ops k) :
    let loaded := (s.step (.putSpeculative k v)).2
    let t := (loaded.run ops).2
    (t.hierarchy.get k t.now).1 = some w → w = v ∨
      ∃ l e, l ≠ .cold ∧ s.Stores l k e ∧ s.isExpired l e = true ∧
        loaded.CarriedDown ops l k e ∧ e.value = w := by
  intro loaded t hget
  obtain ⟨l', e, he, hlive, rfl⟩ := Hierarchy.held_of_get hget
  obtain ⟨l, hl, hreason⟩ := origin_of_held hops he hlive
  obtain rfl | ⟨hcold, hstored, hage⟩ := Hierarchy.stored_after_load hload hl
  · exact .inl rfl
  · refine .inr ⟨l, e, hcold, hstored, hage, hreason.resolve_left ?_, rfl⟩
    have hsame : loaded.isExpired l e = s.isExpired l e := by
      unfold isExpired
      rw [show (loaded.hierarchy.tier l).ttl = (s.hierarchy.tier l).ttl from
        ttl_run s [.putSpeculative k v] l]
      rfl
    rw [hsame, isExpired, hage]
    simp

/-- A value that was loaded while an expired entry stayed behind. The next load of its key is
refused. -/
theorem found_after_load_beside_leftover :
    let s := (narrowStart.run [.put 1 10, .advance 6]).2
    let loaded := (s.step (.putSpeculative 1 11)).2
    let ops : List (Operation Nat Nat) := [.putSpeculative 1 12, .get 2]
    let t := (loaded.run ops).2
    (s.hierarchy.putSpeculative 1 11 s.now).1 = true ∧ s.Stores .hot 1 ⟨10, 0⟩ ∧
      loaded.Unwritten ops 1 ∧ (t.hierarchy.get 1 t.now).1 = some 11 ∧
      ∀ w, (t.hierarchy.get 1 t.now).1 = some w → w = 11 ∨
        ∃ l e, l ≠ .cold ∧ s.Stores l 1 e ∧ s.isExpired l e = true ∧
          loaded.CarriedDown ops l 1 e ∧ e.value = w := by
  intro s loaded ops t
  have hload : (s.hierarchy.putSpeculative 1 11 s.now).1 = true := by decide
  have hops : loaded.Unwritten ops 1 := by
    refine unwritten_cons.2 ⟨fun v haccepts => ?_, unwritten_of_not_writes ?_⟩
    · exact absurd haccepts.2.2 (by decide)
    · simp [Operation.Writes]
  exact ⟨hload, rfl, hops, by decide, fun w => found_after_load hload hops⟩

/-- A loaded value is displaced, and then an older one is carried down and found. -/
theorem leftover_found_after_load :
    let s := (narrowStart.run [.put 1 10, .advance 6]).2
    let t := ((s.step (.putSpeculative 1 11)).2.run [.putSpeculative 2 20, .put 3 30]).2
    Hierarchy.new narrow (fun _ => 0) = .ok narrowStart.hierarchy ∧
      (s.hierarchy.putSpeculative 1 11 s.now).1 = true ∧
      (t.hierarchy.get 1 t.now).1 = some 10 :=
  ⟨rfl, by decide, by decide⟩

end Session

end TieredCache
