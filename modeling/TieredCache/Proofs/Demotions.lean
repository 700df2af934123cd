import TieredCache.Proofs.StepwiseShrinking

/-!
# What resizing demotes

A tier that is shrunk sends away what was touched longest ago. As long as there are no more entries
in flight than free places below them, none is pushed out of the coldest tier: an entry that lands
takes up a place, or puts another one in flight from a tier that has no place left. So an entry that
a tier held is found again, unless it is too old for a tier on its way.
-/

namespace TieredCache

theorem Level.mem_cons_below_iff {l m next : Level} (hcolder : l.colder = some next) :
    l ∈ m :: m.below ↔ next ∈ m.below := by
  cases l <;> cases hcolder <;> cases m <;> decide

theorem Level.exists_colder {l : Level} (hl : l ≠ .cold) : ∃ next, l.colder = some next := by
  cases l with
  | hot => exact ⟨.warm, rfl⟩
  | warm => exact ⟨.cold, rfl⟩
  | cold => exact absurd rfl hl

theorem Level.not_mem_of_isHotterThan {l m : Level} (h : m.isHotterThan l) :
    m ∉ l :: l.below := by
  cases l <;> cases m <;> first | decide | exact absurd h (by decide)

theorem Level.mem_below_of_mem {l m next : Level} (hm : m ∈ l :: l.below)
    (hcolder : m.colder = some next) : next ∈ l :: l.below :=
  List.mem_cons_of_mem l (mem_below_of_colder hm hcolder).1

namespace Tier

variable {K V : Type}

/-- The number of entries that there is still room for. -/
def free (t : Tier K V) : Nat :=
  t.capacity.value - t.size

theorem isFull_iff {t : Tier K V} : t.IsFull ↔ t.free = 0 :=
  Nat.sub_eq_zero_iff_le.symm

variable [DecidableEq K] {t : Tier K V} {j k : K} {d e : Entry V}

/-- A new key takes up a place, or displaces an entry if there is none. -/
theorem Consistent.free_put (h : t.Consistent) (hk : t.store.get? k = none) :
    (t.put k e).tier.free + 1 = t.free + (t.put k e).evicted.length ∧
      (t.free = 0 ∨ (t.put k e).evicted = []) := by
  obtain ⟨stayed, hordered, hsplit⟩ := h.put_split k e
  rw [h.indexed.filter_ordered hk] at hsplit
  have hbefore : t.size = stayed.length + (t.put k e).evicted.length := by
    rw [← List.length_append, ← hsplit, h.indexed.length_ordered, h.indexed.length_recency]
  have hafter : (t.put k e).tier.size = stayed.length + 1 := by
    rw [← (h.indexed.put k e).length_recency, ← (h.indexed.put k e).length_ordered, hordered]
    rfl
  have hfits := (h.put k e).fits
  rw [(h.indexed.put k e).length_recency, (t.put_alike k e).capacity] at hfits
  rw [free, free, (t.put_alike k e).capacity]
  by_cases hevicted : (t.put k e).evicted = []
  · rw [hevicted, List.length_nil] at hbefore ⊢
    exact ⟨by omega, .inr rfl⟩
  · have hfull : t.capacity.value ≤ t.size := (h.indexed.full_of_evicted hevicted).1
    have hone := length_put_evicted_le t k e
    have hsome := List.length_pos_of_ne_nil hevicted
    exact ⟨by omega, .inl (by omega)⟩

theorem Consistent.isFull_put (h : t.Consistent) (hk : t.store.get? k = none) (hfull : t.IsFull) :
    (t.put k e).tier.IsFull := by
  obtain ⟨hfree, -⟩ := h.free_put (e := e) hk
  have hone := length_put_evicted_le t k e
  rw [isFull_iff] at hfull ⊢
  omega

theorem Consistent.ordered_put_of_room (h : t.Consistent) (hk : t.store.get? k = none)
    (hevicted : (t.put k e).evicted = []) : (t.put k e).tier.ordered = (k, e) :: t.ordered := by
  obtain ⟨stayed, hordered, hsplit⟩ := h.put_split k e
  rw [h.indexed.filter_ordered hk, hevicted, List.append_nil] at hsplit
  rw [hordered, hsplit]

theorem Indexed.size_resize (h : t.Indexed) (capacity : Capacity) :
    (t.resize capacity).tier.size = min capacity.value t.size := by
  have hindexed := h.resize capacity
  rw [← hindexed.length_recency, ← hindexed.length_ordered, (h.ordered_resize capacity).1,
    List.length_take, h.length_ordered, h.length_recency]

theorem Indexed.stays_or_resized_out (h : t.Indexed) (capacity : Capacity)
    (hj : t.store.get? j = some d) :
    (t.resize capacity).tier.store.get? j = some d ∨ (j, d) ∈ (t.resize capacity).evicted := by
  obtain ⟨hstay, hleave⟩ := h.ordered_resize capacity
  have hmem := (h.mem_ordered_iff j d).2 hj
  rw [← List.take_append_drop capacity.value t.ordered, List.mem_append] at hmem
  rw [← (h.resize capacity).mem_ordered_iff, hstay, hleave, List.mem_reverse]
  exact hmem

/-- What leaves a tier that is resized has been given up for lack of room, and none of its key is
left there. -/
theorem Indexed.full_of_resized_out (h : t.Indexed) {capacity : Capacity}
    (hd : (j, d) ∈ (t.resize capacity).evicted) :
    (t.resize capacity).tier.IsFull ∧ (t.resize capacity).tier.store.get? j = none := by
  obtain ⟨hstay, hleave⟩ := h.ordered_resize capacity
  have hindexed := h.resize capacity
  rw [hleave, List.mem_reverse] at hd
  constructor
  · have hover : capacity.value < t.ordered.length := by
      rw [← Nat.sub_pos_iff_lt, ← List.length_drop]
      exact List.length_pos_of_mem hd
    rw [h.length_ordered, h.length_recency] at hover
    rw [IsFull, h.size_resize, (t.resize_alike capacity).capacity, Nat.min_eq_left hover.le]
  · have hkeys : (t.ordered.map Prod.fst).Nodup := h.map_fst_ordered ▸ h.nodup
    rw [← List.take_append_drop capacity.value t.ordered, List.map_append] at hkeys
    have hdropped := List.mem_map_of_mem (f := Prod.fst) hd
    cases hstored : (t.resize capacity).tier.store.get? j with
    | none => rfl
    | some c =>
      rw [← hindexed.mem_ordered_iff, hstay] at hstored
      have htaken := List.mem_map_of_mem (f := Prod.fst) hstored
      exact absurd hdropped (List.disjoint_of_nodup_append hkeys htaken)

end Tier

namespace Hierarchy

variable {K V : Type}

/-! ### Places below -/

/-- The number of entries that all tiers below a level still have room for. -/
def freeBelow (h : Hierarchy K V) (l : Level) : Nat :=
  (l.below.map fun m => (h.tier m).free).sum

/-- The number of entries in flight from a level or a colder one. -/
def fallingFrom (l : Level) (flight : List (Level × K × Entry V)) : Nat :=
  flight.countP fun p => p.1 ∈ l :: l.below

/-- From each level on, there are no more entries in flight than places below. -/
def HasRoom (h : Hierarchy K V) (flight : List (Level × K × Entry V)) : Prop :=
  ∀ l, fallingFrom l flight ≤ h.freeBelow l

theorem fallingFrom_cons (l m : Level) (p : K × Entry V) (rest : List (Level × K × Entry V)) :
    fallingFrom l ((m, p) :: rest) =
      fallingFrom l rest + if m ∈ l :: l.below then 1 else 0 := by
  simp only [fallingFrom, List.countP_cons, decide_eq_true_eq]

theorem fallingFrom_sentFrom (l m : Level) (evicted : List (K × Entry V)) :
    fallingFrom l (sentFrom m evicted) = if m ∈ l :: l.below then evicted.length else 0 := by
  rw [fallingFrom, sentFrom, List.countP_map]
  split
  · rename_i hm
    exact List.countP_eq_length.2 fun _ _ => decide_eq_true hm
  · rename_i hm
    exact List.countP_eq_zero.2 fun _ _ => by simpa using hm

theorem fallingFrom_append (l : Level) (front back : List (Level × K × Entry V)) :
    fallingFrom l (front ++ back) = fallingFrom l front + fallingFrom l back :=
  List.countP_append

theorem fallingFrom_colder_le {l next : Level} (hcolder : l.colder = some next)
    (flight : List (Level × K × Entry V)) : fallingFrom next flight ≤ fallingFrom l flight := by
  apply List.countP_mono_left
  rintro ⟨m, p⟩ _ hm
  rw [Level.below_of_colder hcolder]
  exact decide_eq_true (List.mem_cons_of_mem l (of_decide_eq_true hm))

theorem freeBelow_of_colder (h : Hierarchy K V) {l next : Level} (hcolder : l.colder = some next) :
    h.freeBelow l = (h.tier next).free + h.freeBelow next := by
  rw [freeBelow, Level.below_of_colder hcolder, List.map_cons, List.sum_cons, freeBelow]

theorem freeBelow_le (h : Hierarchy K V) {l m : Level} (hm : l ∈ m :: m.below) :
    h.freeBelow l ≤ h.freeBelow m := by
  cases l <;> cases m <;> first
    | exact absurd hm (by decide)
    | simp [freeBelow, Level.below]

/-- Where one tier is replaced, its places count for the levels above it. -/
theorem freeBelow_of_tier {h h' : Hierarchy K V} {l : Level} {t : Tier K V}
    (htier : ∀ m, h'.tier m = if m = l then t else h.tier m) (m : Level) :
    h'.freeBelow m + (if l ∈ m.below then (h.tier l).free else 0) =
      h.freeBelow m + if l ∈ m.below then t.free else 0 := by
  cases l <;> cases m <;> simp [freeBelow, Level.below, htier] <;> omega

theorem freeBelow_takeOver (h : Hierarchy K V) (l : Level) (d : Displacement K V) :
    (h.takeOver l d).freeBelow l = h.freeBelow l := by
  have hplaces := freeBelow_of_tier (fun m => h.tier_takeOver l m d) l
  rwa [if_neg l.not_mem_below, if_neg l.not_mem_below] at hplaces

namespace HasRoom

variable {h : Hierarchy K V} {l next : Level} {k : K} {e : Entry V}
  {flight rest : List (Level × K × Entry V)}

theorem of_cons {p : Level × K × Entry V} (hh : h.HasRoom (p :: rest)) : h.HasRoom rest :=
  fun l => (List.sublist_cons_self p rest).countP_le.trans (hh l)

theorem of_fits {evicted : List (K × Entry V)} (hfits : evicted.length ≤ h.freeBelow l) :
    h.HasRoom (sentFrom l evicted) := by
  intro m
  rw [fallingFrom_sentFrom]
  split
  · rename_i hm
    exact hfits.trans (h.freeBelow_le hm)
  · exact Nat.zero_le _

theorem ne_cold (hh : h.HasRoom flight) (hflight : (l, k, e) ∈ flight) : l ≠ .cold := by
  rintro rfl
  -- There are no places below it.
  have hnone : fallingFrom .cold flight = 0 := Nat.le_zero.1 (hh .cold)
  exact List.countP_eq_zero.1 hnone _ hflight (decide_eq_true List.mem_cons_self)

variable [DecidableEq K]

/-- An entry takes up a place, or it displaces another one and there are as many places below that
one as there were below the first. -/
theorem landed (hh : h.HasRoom ((l, k, e) :: rest)) (hcolder : l.colder = some next)
    (hconsistent : (h.tier next).Consistent) (hk : (h.tier next).store.get? k = none) :
    (h.landed next k e).HasRoom (sentFrom next ((h.tier next).put k e).evicted ++ rest) := by
  obtain ⟨hfree, hfull⟩ := hconsistent.free_put (e := e) hk
  have hone : ((h.tier next).put k e).evicted.length ≤ 1 := Tier.length_put_evicted_le _ k e
  have hnone : (h.tier next).free = 0 ∨ ((h.tier next).put k e).evicted.length = 0 :=
    hfull.imp_right fun hnil => by rw [hnil, List.length_nil]
  have hbelow := fallingFrom_colder_le hcolder rest
  have hthis := hh l
  rw [fallingFrom_cons, if_pos List.mem_cons_self, h.freeBelow_of_colder hcolder] at hthis
  intro m
  have hm := hh m
  have hplaces := freeBelow_of_tier (fun m => h.tier_landed next m k e) m
  rw [fallingFrom_append, fallingFrom_sentFrom]
  rw [fallingFrom_cons] at hm
  simp only [Level.mem_cons_below_iff hcolder] at hm
  -- Above the tier where it lands one entry less is in flight for each place taken up. From that
  -- tier on there may be one more, and then the tier was full, so that the places that `hthis`
  -- counts are all below it.
  by_cases hnext : next ∈ m.below
  · simp only [hnext, List.mem_cons, or_true, if_true] at hm hplaces ⊢
    omega
  · simp only [hnext, List.mem_cons, or_false, if_false] at hm hplaces ⊢
    split
    · rename_i heq
      subst heq
      omega
    · omega

end HasRoom

/-! ### What becomes of an entry -/

variable [DecidableEq K] {now : Int} {h : Hierarchy K V} {l m next origin : Level} {j k : K}
  {d e : Entry V} {evicted : List (K × Entry V)} {flight rest : List (Level × K × Entry V)}
  {ttl : Level → Nat}

/-- A tier that has no room left has given up an entry that was not too old for it. -/
structure GivenUp (h : Hierarchy K V) (now : Int) (l : Level) (e : Entry V) : Prop where
  full : (h.tier l).IsFull
  young : e.expired (h.tier l).ttl now = false

/-- An entry that a tier held is still held, there or below, or it is in flight from a tier that has
given it up, or it was too old for the next tier. -/
inductive Fate (now : Int) (origin : Level) (k : K) (e : Entry V) (h : Hierarchy K V)
    (flight : List (Level × K × Entry V)) : Prop where
  | held (m : Level) (hm : m ∈ origin :: origin.below) (hfind : (h.tier m).find? k now = some e)
  | falling (m : Level) (hm : m ∈ origin :: origin.below) (hgiven : h.GivenUp now m e)
    (hflight : (m, k, e) ∈ flight) (hheld : h.contains k now = false)
  | tooOld (m next : Level) (hm : m ∈ origin :: origin.below) (hgiven : h.GivenUp now m e)
    (hcolder : m.colder = some next) (hold : e.expired (h.tier next).ttl now = true)
    (hgone : ∀ d, (k, d) ∉ h.aboveCold flight)

theorem GivenUp.landed (hgiven : h.GivenUp now m e) (hconsistent : (h.tier next).Consistent)
    (hk : (h.tier next).store.get? k = none) : (h.landed next k d).GivenUp now m e where
  full := by
    rw [tier_landed]
    split
    · rename_i hm
      exact hconsistent.isFull_put hk (hm ▸ hgiven.full)
    · exact hgiven.full
  young := by
    rw [ttl_of_landed (fun i => tier_landed h next i k d)]
    exact hgiven.young

theorem not_contains_landed (hj : j ≠ k) (hheld : h.contains j now = false) :
    (h.landed next k e).contains j now = false := by
  rw [not_contains_iff] at hheld ⊢
  intro m
  rw [tier_landed]
  split
  · rw [← Bool.not_eq_true]
    intro hm
    have hnext := Tier.contains_of_put hj hm
    rw [hheld next] at hnext
    exact absurd hnext (by simp)
  · exact hheld m

theorem Layered.key_ne (hh : Layered ttl now h ((l, k, e) :: rest)) (hl : l ≠ .cold)
    (hd : (j, d) ∈ h.aboveCold rest) : j ≠ k := by
  rintro rfl
  exact hh.not_mem_rest hl d hd

namespace Fate

theorem gone (hfate : Fate now origin j e h ((l, k, d) :: rest))
    (hlayered : Layered ttl now h ((l, k, d) :: rest)) (hcolder : l.colder = some next)
    (hage : d.expired (h.tier next).ttl now = true) :
    Fate now origin j e (h.countEviction.finishMove k) rest := by
  cases hfate with
  | held m hm hfind => exact .held m hm hfind
  | falling m hm hgiven hflight hheld =>
    rcases List.mem_cons.1 hflight with heq | hflight
    · cases heq
      exact .tooOld l next hm ⟨hgiven.full, hgiven.young⟩ hcolder hage
        (hlayered.not_mem_rest (Level.ne_cold_of_colder hcolder))
    · exact .falling m hm ⟨hgiven.full, hgiven.young⟩ hflight hheld
  | tooOld m next hm hgiven hcolder hold hgone =>
    exact .tooOld m next hm ⟨hgiven.full, hgiven.young⟩ hcolder hold fun c hc =>
      hgone c (Multiset.mem_of_le (aboveCold_cons_le h _ rest) hc)

theorem superseded (hfate : Fate now origin j e h ((l, k, d) :: rest))
    (hcontains : h.contains k now = true) : Fate now origin j e (h.finishMove k) rest := by
  cases hfate with
  | held m hm hfind => exact .held m hm hfind
  | falling m hm hgiven hflight hheld =>
    rcases List.mem_cons.1 hflight with heq | hflight
    · cases heq
      rw [hcontains] at hheld
      exact absurd hheld (by simp)
    · exact .falling m hm ⟨hgiven.full, hgiven.young⟩ hflight hheld
  | tooOld m next hm hgiven hcolder hold hgone =>
    exact .tooOld m next hm ⟨hgiven.full, hgiven.young⟩ hcolder hold fun c hc =>
      hgone c (Multiset.mem_of_le (aboveCold_cons_le h _ rest) hc)

theorem lands (hfate : Fate now origin j e h ((l, k, d) :: rest)) (hsound : h.Sound now)
    (hlayered : Layered ttl now h ((l, k, d) :: rest)) (hroom : h.HasRoom ((l, k, d) :: rest))
    (hcolder : l.colder = some next) (hage : d.expired (h.tier next).ttl now = false)
    (hcontains : h.contains k now = false) (hk : (h.tier next).store.get? k = none) :
    Fate now origin j e (h.landed next k d)
      (sentFrom next ((h.tier next).put k d).evicted ++ rest) := by
  have hconsistent := hsound.consistent next
  have hlanded := fun i => tier_landed h next i k d
  cases hfate with
  | held m hm hfind =>
    obtain ⟨hstored, hyoung⟩ := Tier.find?_eq_some_iff.1 hfind
    have hj : j ≠ k := by
      rintro rfl
      have hheld := Tier.contains_of_find? hfind
      rw [(not_contains_iff h j now).1 hcontains m] at hheld
      exact absurd hheld (by simp)
    -- It is touched only if this is the tier where the other entry lands.
    by_cases hnext : m = next
    · subst hnext
      rcases Tier.stays_or_evicted d hj hstored with hstays | hevicted
      · refine .held m hm (Tier.find?_eq_some_iff.2 ?_)
        rw [hlanded, if_pos rfl, (Tier.put_alike _ k d).ttl]
        exact ⟨hstays, hyoung⟩
      · have hfull := (hconsistent.indexed.full_of_evicted (List.ne_nil_of_mem hevicted)).1
        have hgiven : h.GivenUp now m e := ⟨hfull, hyoung⟩
        exact .falling m hm (hgiven.landed hconsistent hk)
          (List.mem_append_left _ (mem_sentFrom.2 ⟨rfl, hevicted⟩))
          (hsound.not_contains_evicted hlanded hfind hevicted)
    · refine .held m hm ?_
      rw [hlanded, if_neg hnext]
      exact hfind
  | falling m hm hgiven hflight hheld =>
    rcases List.mem_cons.1 hflight with heq | hrest
    · cases heq
      refine .held next ?_ (Tier.find?_eq_some_iff.2 ?_)
      · exact Level.mem_below_of_mem hm hcolder
      · rw [hlanded, if_pos rfl, (Tier.put_alike _ _ _).ttl]
        exact ⟨Tier.get?_put_self _ _ _, hage⟩
    · have hj : j ≠ k := hlayered.key_ne (Level.ne_cold_of_colder hcolder)
        (Multiset.mem_add.2 (.inl (mem_falling (hroom.ne_cold hflight) hrest)))
      exact .falling m hm (hgiven.landed hconsistent hk) (List.mem_append_right _ hrest)
        (not_contains_landed hj hheld)
  | tooOld m next' hm hgiven hcolder' hold hgone =>
    refine .tooOld m next' hm (hgiven.landed hconsistent hk) hcolder' ?_ fun c hc =>
      hgone c (Multiset.mem_of_le (h.aboveCold_landed_le hcolder rest) hc)
    rw [ttl_of_landed hlanded]
    exact hold

end Fate

/-- What carries the fate of an entry from one round of settling to the next. -/
structure Demoting (ttl : Level → Nat) (now : Int) (origin : Level) (k : K) (e : Entry V)
    (h : Hierarchy K V) (flight : List (Level × K × Entry V)) : Prop where
  sound : h.Sound now
  layered : Layered ttl now h flight
  room : h.HasRoom flight
  fate : Fate now origin k e h flight

theorem Demoting.settleAll (hdemoting : Demoting ttl now origin j e h (sentFrom l evicted)) :
    Fate now origin j e (h.settleAll l evicted now) [] := by
  have hkept := layered_traced (K := K) (V := V) ttl now
  refine (settleAll_rounds (Demoting ttl now origin j e) ?_ ?_ ?_ h l evicted [] ?_).fate
  · intro h l k d rest hage hh
    -- An entry from the coldest tier would be given up whatever its age, but there is none.
    obtain ⟨next, hcolder⟩ := Level.exists_colder (hh.room.ne_cold List.mem_cons_self)
    exact ⟨⟨hh.sound.consistent, hh.sound.single⟩, hkept.gone h l k d rest hage hh.layered,
      hh.room.of_cons, hh.fate.gone hh.layered hcolder (hage next hcolder)⟩
  · intro h l next k d rest hcolder hage hcontains hh
    exact ⟨⟨hh.sound.consistent, hh.sound.single⟩,
      hkept.superseded h l k d rest hcontains hh.layered, hh.room.of_cons,
      hh.fate.superseded hcontains⟩
  · intro h l next k d rest hcolder hage hcontains hh
    have hk := hh.layered.not_stored_of_lands List.mem_cons_self hcolder hage hcontains
    exact ⟨hh.sound.of_put hcontains fun m => tier_landed h next m k d,
      hkept.lands h l next k d rest hcolder hage hcontains hh.layered,
      hh.room.landed hcolder (hh.sound.consistent next) hk,
      hh.fate.lands hh.sound hh.layered hh.room hcolder hage hcontains hk⟩
  · rwa [List.append_nil]

/-! ### From the shrunk tier on -/

/-- An entry has been given up by a tier and is too old for the next one. -/
structure TooOldToFall (h : Hierarchy K V) (now : Int) (l next : Level) (k : K) (e : Entry V) :
    Prop extends h.GivenUp now l e where
  colder : l.colder = some next
  left : (h.tier l).store.get? k = none
  old : e.expired (h.tier next).ttl now = true

theorem Fate.of_settled (hfate : Fate now origin k e h []) :
    (∃ m ∈ origin :: origin.below, (h.tier m).find? k now = some e) ∨
      ∃ m ∈ origin :: origin.below, ∃ next, h.TooOldToFall now m next k e := by
  cases hfate with
  | held m hm hfind => exact .inl ⟨m, hm, hfind⟩
  | falling m hm hgiven hflight hheld => exact absurd hflight (by simp)
  | tooOld m next hm hgiven hcolder hold hgone =>
    refine .inr ⟨m, hm, next, hgiven, hcolder, ?_, hold⟩
    cases hstored : (h.tier m).store.get? k with
    | none => rfl
    | some d =>
      exact absurd (mem_aboveCold_of_stored (Level.ne_cold_of_colder hcolder) hstored [])
        (hgone d)

theorem Sound.resized (hh : h.Sound now) (l : Level) (capacity : Capacity) :
    (h.takeOver l ((h.tier l).resize capacity)).Sound now :=
  (sound_keptByWrites now).resized h l capacity hh

theorem Sound.not_contains_resized (hh : h.Sound now) {capacity : Capacity}
    (hd : (j, d) ∈ ((h.tier l).resize capacity).evicted)
    (hothers : ∀ m, m ≠ l → (h.tier m).contains j now = false) :
    (h.takeOver l ((h.tier l).resize capacity)).contains j now = false := by
  rw [not_contains_iff]
  intro m
  rw [tier_takeOver]
  split
  · rw [Tier.contains, Tier.find?, ((hh.consistent l).indexed.full_of_resized_out hd).2]
    rfl
  · rename_i hm
    exact hothers m hm

theorem Fate.resized (hsound : h.Sound now) (l : Level) (capacity : Capacity)
    (hfind : (h.tier m).find? k now = some e) :
    Fate now m k e (h.takeOver l ((h.tier l).resize capacity))
      (sentFrom l ((h.tier l).resize capacity).evicted) := by
  have htier := fun i => h.tier_takeOver l i ((h.tier l).resize capacity)
  by_cases hm : m = l
  · subst hm
    obtain ⟨hstored, hyoung⟩ := Tier.find?_eq_some_iff.1 hfind
    have hindexed := (hsound.consistent m).indexed
    have hyoung : e.expired ((h.tier m).resize capacity).tier.ttl now = false := by
      rw [(Tier.resize_alike _ capacity).ttl]
      exact hyoung
    rcases hindexed.stays_or_resized_out capacity hstored with hstays | hevicted
    · refine .held m List.mem_cons_self (Tier.find?_eq_some_iff.2 ?_)
      rw [htier, if_pos rfl]
      exact ⟨hstays, hyoung⟩
    · have hfull := (hindexed.full_of_resized_out hevicted).1
      refine .falling m List.mem_cons_self ?_ (mem_sentFrom.2 ⟨rfl, hevicted⟩) ?_
      · constructor <;> rw [htier, if_pos rfl]
        · exact hfull
        · exact hyoung
      · apply hsound.not_contains_resized hevicted
        intro i hi
        rw [← Bool.not_eq_true]
        exact fun hheld => hi (hsound.single k i m hheld (Tier.contains_of_find? hfind))
  · refine .held m List.mem_cons_self ?_
    rw [htier, if_neg hm]
    exact hfind

/-- As long as all entries that leave a tier find a place below it, what was held is held still, or
it was too old for the next tier. -/
theorem resizeTier_keeps (hsound : h.Sound now) (hlayered : Layered ttl now h [])
    (l : Level) (capacity : Capacity)
    (hfits : (h.resizeTier l capacity now).1 ≤ h.freeBelow l)
    (hfind : (h.tier m).find? k now = some e) :
    (∃ i ∈ m :: m.below, ((h.resizeTier l capacity now).2.tier i).find? k now = some e) ∨
      ∃ i ∈ m :: m.below, ∃ next,
        (h.resizeTier l capacity now).2.TooOldToFall now i next k e := by
  have hroom : (h.takeOver l ((h.tier l).resize capacity)).HasRoom
      (sentFrom l ((h.tier l).resize capacity).evicted) := by
    apply HasRoom.of_fits
    rw [freeBelow_takeOver]
    exact hfits
  have hstart : Demoting ttl now m k e (h.takeOver l ((h.tier l).resize capacity))
      (sentFrom l ((h.tier l).resize capacity).evicted) :=
    ⟨hsound.resized l capacity, hlayered.resized l capacity, hroom,
      Fate.resized hsound l capacity hfind⟩
  exact hstart.settleAll.of_settled

/-- Entries that find a place in the next tier come before what was there, the last one first. -/
theorem ordered_settleAll (hsound : h.Sound now) (hlayered : Layered ttl now h (sentFrom l evicted))
    (hcolder : l.colder = some next) (hfits : evicted.length ≤ (h.tier next).free)
    (hyoung : ∀ p ∈ evicted, p.2.expired (h.tier next).ttl now = false)
    (hheld : ∀ p ∈ evicted, h.contains p.1 now = false) :
    ((h.settleAll l evicted now).tier next).ordered =
      evicted.reverse ++ (h.tier next).ordered := by
  have hl := Level.ne_cold_of_colder hcolder
  -- Each entry takes up one of the places, and none is displaced.
  induction evicted generalizing h with
  | nil => rfl
  | cons p rest ih =>
    obtain ⟨k, e⟩ := p
    have hage := hyoung (k, e) List.mem_cons_self
    have hcontains := hheld (k, e) List.mem_cons_self
    have hk := hlayered.not_stored_of_lands List.mem_cons_self hcolder hage hcontains
    obtain ⟨hfree, hfull⟩ := (hsound.consistent next).free_put (e := e) hk
    rw [List.length_cons] at hfits
    have hnil : ((h.tier next).put k e).evicted = [] := hfull.resolve_left (by omega)
    rw [hnil, List.length_nil] at hfree
    have hlanded := fun m => tier_landed h next m k e
    have hself : (h.landed next k e).tier next = ((h.tier next).put k e).tier := by
      rw [hlanded, if_pos rfl]
    have hsettle : h.settleAll l ((k, e) :: rest) now =
        (h.landed next k e).settleAll l rest now := by
      rw [settleAll, Level.below_of_colder hcolder, List.foldl_cons, settle_cons, hage, hcontains,
        hnil, settleAll, Level.below_of_colder hcolder]
      rfl
    have hrest : Layered ttl now (h.landed next k e) (sentFrom l rest) := by
      have hlands := (layered_traced ttl now).lands h l next k e (sentFrom l rest) hcolder hage
        hcontains hlayered
      rwa [hnil] at hlands
    have hothers : ∀ p ∈ rest, (h.landed next k e).contains p.1 now = false := by
      rintro ⟨j, d⟩ hp
      have hfalling := mem_falling hl (mem_sentFrom.2 ⟨rfl, hp⟩)
      exact not_contains_landed (hlayered.key_ne hl (Multiset.mem_add.2 (.inl hfalling)))
        (hheld _ (List.mem_cons_of_mem _ hp))
    rw [hsettle, ih (hsound.of_put hcontains hlanded) hrest ?_ ?_ hothers, hself,
      (hsound.consistent next).ordered_put_of_room hk hnil, List.reverse_cons, List.append_assoc]
    · rfl
    · rw [hself]
      omega
    · intro p hp
      rw [ttl_of_landed hlanded]
      exact hyoung p (List.mem_cons_of_mem _ hp)

theorem tier_resizeTier_of_hotter (h : Hierarchy K V) (hm : m.isHotterThan l)
    (capacity : Capacity) (now : Int) :
    (h.resizeTier l capacity now).2.tier m = h.tier m := by
  have hnot := Level.not_mem_of_isHotterThan hm
  rw [List.mem_cons, not_or] at hnot
  rw [resizeTier, settleAll, tier_foldl_settle_of_not_mem hnot.2, tier_takeOver, if_neg hnot.1]

theorem resizeTier_ordered_next (hsound : h.Sound now) (hlayered : Layered ttl now h [])
    (capacity : Capacity) (hcolder : l.colder = some next)
    (hfits : (h.resizeTier l capacity now).1 ≤ (h.tier next).free)
    (hfalls : ∀ p ∈ (h.tier l).ordered.drop capacity.value,
      p.2.expired (h.tier next).ttl now = false ∧
        ∀ m, m ≠ l → (h.tier m).contains p.1 now = false) :
    ((h.resizeTier l capacity now).2.tier next).ordered =
      (h.tier l).ordered.drop capacity.value ++ (h.tier next).ordered := by
  obtain ⟨-, hleave⟩ := (hsound.consistent l).indexed.ordered_resize capacity
  have hnext : (h.takeOver l ((h.tier l).resize capacity)).tier next = h.tier next := by
    rw [tier_takeOver, if_neg]
    rintro rfl
    exact next.colder_ne_self hcolder
  have hfalls : ∀ p ∈ ((h.tier l).resize capacity).evicted,
      p.2.expired (h.tier next).ttl now = false ∧
        ∀ m, m ≠ l → (h.tier m).contains p.1 now = false := by
    rw [hleave]
    exact fun p hp => hfalls p (List.mem_reverse.1 hp)
  have hordered := ordered_settleAll (hsound.resized l capacity) (hlayered.resized l capacity)
    hcolder (by rwa [hnext]) (fun p hp => by rw [hnext]; exact (hfalls p hp).1)
    fun p hp => hsound.not_contains_resized hp (hfalls p hp).2
  rw [hnext] at hordered
  rw [resizeTier, hordered, hleave, List.reverse_reverse]

end Hierarchy

namespace Session

variable {K V : Type} [DecidableEq K]

/-- After every run a tier that gets another capacity keeps as many of its entries as fit, the most
recently touched ones in their order, the number of the others is returned, and the tiers above it
stay as they are. If there are as many free places below, whatever was held is still held, the same
value written at the same time, unless a tier has given it up and it is too old for the next one. If
the next tier has room for all that leave, and none of them is too old for it or held elsewhere,
they come before what was there, in the order they had. -/
theorem resizing_demotes {config : Config} {stripe : K → Nat} (s : Session K V)
    (hnew : Hierarchy.new config stripe = .ok s.hierarchy) (ops : List (Operation K V)) (l : Level)
    (capacity : Capacity) :
    let t := (s.run ops).2
    let before := t.hierarchy
    let leaving := (before.tier l).ordered.drop capacity.value
    let count := (before.resizeTier l capacity t.now).1
    let after := (before.resizeTier l capacity t.now).2
    ((after.tier l).ordered = (before.tier l).ordered.take capacity.value ∧
      (after.tier l).recency = (before.tier l).recency.take capacity.value ∧
      (after.tier l).size = min capacity.value (before.tier l).size ∧
      (∀ m, m.isHotterThan l → after.tier m = before.tier m) ∧
      count + (after.tier l).size = (before.tier l).size ∧
      ((before.tier l).size ≤ capacity.value → count = 0)) ∧
    (count ≤ before.freeBelow l → ∀ m k e, (before.tier m).find? k t.now = some e →
      (∃ i ∈ m :: m.below, (after.tier i).find? k t.now = some e) ∨
        ∃ i ∈ m :: m.below, ∃ next, after.TooOldToFall t.now i next k e) ∧
    ∀ next, l.colder = some next → count ≤ (before.tier next).free →
      (∀ p ∈ leaving, p.2.expired (before.tier next).ttl t.now = false ∧
        ∀ m, m ≠ l → (before.tier m).contains p.1 t.now = false) →
      (after.tier next).ordered = leaving ++ (before.tier next).ordered := by
  intro t before leaving count after
  have hsound := sound_run hnew ops
  have hlayered := layered_run hnew ops
  have hindexed := (hsound.consistent l).indexed
  obtain ⟨hstay, hleave⟩ := hindexed.ordered_resize capacity
  have hself : after.tier l = ((before.tier l).resize capacity).tier :=
    Hierarchy.tier_resizeTier_self before l capacity t.now
  have hsize : (after.tier l).size = min capacity.value (before.tier l).size := by
    rw [hself, hindexed.size_resize]
  have hcount : count = (before.tier l).size - capacity.value := by
    have hlength := congrArg List.length hleave
    rw [List.length_reverse, List.length_drop, hindexed.length_ordered,
      hindexed.length_recency] at hlength
    exact hlength
  refine ⟨⟨?_, ?_, hsize, ?_, ?_, ?_⟩, ?_, ?_⟩
  · rw [hself, hstay]
  · rw [hself, ← (hindexed.resize capacity).map_fst_ordered, hstay, List.map_take,
      hindexed.map_fst_ordered]
  · exact fun m hm => Hierarchy.tier_resizeTier_of_hotter before hm capacity t.now
  · omega
  · omega
  · intro hfits m k e hfind
    exact Hierarchy.resizeTier_keeps hsound hlayered l capacity hfits hfind
  · intro next hcolder hfits hfalls
    exact Hierarchy.resizeTier_ordered_next hsound hlayered capacity hcolder hfits hfalls

/-- Two of three entries leave the hottest tier and come before the one that the next tier has. -/
theorem resizing_demotes_two :
    let ops : List (Operation Nat Nat) := [.resizeTier .warm ⟨3, by decide⟩, .put 1 10, .put 2 20,
      .resizeTier .hot ⟨3, by decide⟩, .put 3 30, .put 4 40]
    let t := (narrowStart.run ops).2
    let before := t.hierarchy
    let after := (before.resizeTier .hot ⟨1, by decide⟩ t.now).2
    Hierarchy.new narrow (fun _ => 0) = .ok narrowStart.hierarchy ∧
      (before.tier .hot).recency = [4, 3, 2] ∧ before.freeBelow .hot = 3 ∧
      (after.tier .hot).recency = [4] ∧
      (after.tier .warm).ordered = [(3, ⟨30, 0⟩), (2, ⟨20, 0⟩), (1, ⟨10, 0⟩)] ∧
      ∃ i ∈ Level.hot :: Level.hot.below, (after.tier i).find? 2 t.now = some ⟨20, 0⟩ := by
  intro ops t before after
  have hnew : Hierarchy.new narrow (fun _ => 0) = .ok narrowStart.hierarchy := rfl
  obtain ⟨⟨-, hrecency, -⟩, hheld, hnext⟩ :=
    resizing_demotes narrowStart hnew ops .hot ⟨1, by decide⟩
  have hfalls : ∀ p ∈ (before.tier .hot).ordered.drop 1,
      p.2.expired (before.tier .warm).ttl t.now = false ∧
        ∀ m ∈ Level.hot.below, (before.tier m).contains p.1 t.now = false := by
    decide
  have hbelow : ∀ m, m ≠ .hot → m ∈ Level.hot.below := by
    intro m hm
    cases m <;> first | decide | exact absurd rfl hm
  have hordered := hnext .warm rfl (by decide) fun p hp =>
    ⟨(hfalls p hp).1, fun m hm => (hfalls p hp).2 m (hbelow m hm)⟩
  refine ⟨hnew, by decide, by decide, ?_, ?_, ?_⟩
  · exact hrecency
  · exact hordered
  · refine (hheld (by decide) .hot 2 ⟨20, 0⟩ (by decide)).resolve_right ?_
    rintro ⟨i, -, next, hgone⟩
    have hold := hgone.old
    cases next <;> exact absurd hold (by decide)

end Session

end TieredCache
