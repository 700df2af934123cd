import TieredCache.Proofs.EntryPaths
import TieredCache.Proofs.FallingEntries

/-!
# Copies of a key in several tiers

A speculative write is the only one that leaves other entries of its key in place, and it writes to
the coldest tier. So at most one entry of a key is outside that tier, stored or on its way down, and
an entry of the same key in the coldest tier was not written before it. An entry that lands in the
next tier therefore finds no entry of its key there: in the coldest one it would be held unexpired,
since it is no older.
-/

namespace TieredCache

theorem Level.ne_cold_of_colder {l next : Level} (h : l.colder = some next) : l ≠ .cold := by
  rintro rfl
  exact absurd h (by simp [Level.colder])

theorem Entry.not_expired_of_newer {V : Type} {d e : Entry V} {ttl : Nat} {now : Int}
    (hnewer : e.insertedAt ≤ d.insertedAt) (hage : e.expired ttl now = false) :
    d.expired ttl now = false := by
  rw [← Bool.not_eq_true, expired_iff] at hage ⊢
  omega

namespace Hierarchy

variable {K V : Type}

/-- The entries in flight that have not left the coldest tier. -/
def falling (flight : List (Level × K × Entry V)) : List (K × Entry V) :=
  (flight.filter fun p => p.1 ≠ .cold).map Prod.snd

/-- The entries outside the coldest tier, stored or in flight. -/
def aboveCold (h : Hierarchy K V) (flight : List (Level × K × Entry V)) :
    Multiset (K × Entry V) :=
  (falling flight : Multiset (K × Entry V)) + ((h.tier .hot).contents + (h.tier .warm).contents)

theorem falling_append (front back : List (Level × K × Entry V)) :
    falling (front ++ back) = falling front ++ falling back := by
  rw [falling, List.filter_append, List.map_append]
  rfl

theorem falling_cons {l : Level} (hl : l ≠ .cold) (p : K × Entry V)
    (rest : List (Level × K × Entry V)) : falling ((l, p) :: rest) = p :: falling rest := by
  simp [falling, hl]

theorem falling_sentFrom {l : Level} (hl : l ≠ .cold) (evicted : List (K × Entry V)) :
    falling (sentFrom l evicted) = evicted := by
  simp [falling, sentFrom, List.filter_map, Function.comp_def, hl]

theorem falling_sentFrom_cold (evicted : List (K × Entry V)) :
    falling (sentFrom .cold evicted) = [] := by
  simp [falling, sentFrom, List.filter_map, Function.comp_def]

theorem mem_falling {l : Level} (hl : l ≠ .cold) {p : K × Entry V}
    {flight : List (Level × K × Entry V)} (hp : (l, p) ∈ flight) : p ∈ falling flight :=
  List.mem_map.2 ⟨(l, p), List.mem_filter.2 ⟨hp, decide_eq_true hl⟩, rfl⟩

theorem falling_sublist_cons (p : Level × K × Entry V) (rest : List (Level × K × Entry V)) :
    (falling rest).Sublist (falling (p :: rest)) :=
  ((List.sublist_cons_self p rest).filter _).map _

theorem aboveCold_cons_le (h : Hierarchy K V) (p : Level × K × Entry V)
    (rest : List (Level × K × Entry V)) : h.aboveCold rest ≤ h.aboveCold (p :: rest) :=
  add_le_add_left (Multiset.coe_le.2 (falling_sublist_cons p rest).subperm) _

theorem aboveCold_cons {l : Level} (hl : l ≠ .cold) (h : Hierarchy K V) (p : K × Entry V)
    (rest : List (Level × K × Entry V)) :
    h.aboveCold ((l, p) :: rest) = p ::ₘ h.aboveCold rest := by
  rw [aboveCold, falling_cons hl, ← Multiset.cons_coe, Multiset.cons_add]
  rfl

theorem aboveCold_takeOver_add {h h' : Hierarchy K V} {l : Level} (hl : l ≠ .cold)
    {d : Displacement K V} (htier : ∀ m, h'.tier m = if m = l then d.tier else h.tier m)
    (rest : List (Level × K × Entry V)) :
    h'.aboveCold (sentFrom l d.evicted ++ rest) + (h.tier l).contents =
      ((d.evicted : Multiset (K × Entry V)) + d.tier.contents) + h.aboveCold rest := by
  rw [aboveCold, aboveCold, falling_append, falling_sentFrom hl, ← Multiset.coe_add, htier, htier]
  cases l with
  | hot =>
    simp only [reduceCtorEq, if_true, if_false]
    abel
  | warm =>
    simp only [reduceCtorEq, if_true, if_false]
    abel
  | cold => exact absurd rfl hl

/-- Entries that leave a tier stay above the coldest one while they are on their way. -/
theorem aboveCold_takeOver_le {h h' : Hierarchy K V} {l : Level} (hl : l ≠ .cold)
    {d : Displacement K V} (htier : ∀ m, h'.tier m = if m = l then d.tier else h.tier m)
    (gain : Multiset (K × Entry V))
    (hd : (d.evicted : Multiset (K × Entry V)) + d.tier.contents ≤ gain + (h.tier l).contents)
    (rest : List (Level × K × Entry V)) :
    h'.aboveCold (sentFrom l d.evicted ++ rest) ≤ gain + h.aboveCold rest := by
  rw [← add_le_add_iff_right (h.tier l).contents, aboveCold_takeOver_add hl htier]
  calc ((d.evicted : Multiset (K × Entry V)) + d.tier.contents) + h.aboveCold rest
      ≤ (gain + (h.tier l).contents) + h.aboveCold rest := add_le_add_left hd _
    _ = gain + h.aboveCold rest + (h.tier l).contents := by abel

/-- What leaves the coldest tier or lands there does not count. -/
theorem aboveCold_of_cold {h h' : Hierarchy K V} (htier : ∀ m, m ≠ .cold → h'.tier m = h.tier m)
    (evicted : List (K × Entry V)) (rest : List (Level × K × Entry V)) :
    h'.aboveCold (sentFrom .cold evicted ++ rest) = h.aboveCold rest := by
  rw [aboveCold, aboveCold, falling_append, falling_sentFrom_cold, List.nil_append,
    htier .hot (by decide), htier .warm (by decide)]

variable [DecidableEq K]

theorem mem_contents_of_stored {h : Hierarchy K V} {l : Level} (hl : l ≠ .cold) {k : K}
    {e : Entry V} (he : (h.tier l).store.get? k = some e) :
    (k, e) ∈ (h.tier .hot).contents + (h.tier .warm).contents := by
  rw [Multiset.mem_add, Tier.mem_contents_iff, Tier.mem_contents_iff]
  cases l with
  | hot => exact .inl he
  | warm => exact .inr he
  | cold => exact absurd rfl hl

theorem mem_aboveCold_of_stored {h : Hierarchy K V} {l : Level} (hl : l ≠ .cold) {k : K}
    {e : Entry V} (he : (h.tier l).store.get? k = some e)
    (flight : List (Level × K × Entry V)) : (k, e) ∈ h.aboveCold flight :=
  Multiset.mem_add.2 (.inr (mem_contents_of_stored hl he))

theorem aboveCold_le_of_within {h h' : Hierarchy K V}
    (hwithin : ∀ l, (h'.tier l).Within (h.tier l)) (flight : List (Level × K × Entry V)) :
    h'.aboveCold flight ≤ h.aboveCold flight :=
  add_le_add_right (add_le_add (Tier.contents_le_of_within (hwithin .hot))
    (Tier.contents_le_of_within (hwithin .warm))) _

theorem aboveCold_remove (h : Hierarchy K V) (k : K) :
    (h.remove k).aboveCold [] = (h.aboveCold []).filter fun p => p.1 ≠ k := by
  rw [aboveCold, aboveCold, tier_remove, tier_remove, Tier.contents_remove, Tier.contents_remove,
    Multiset.filter_add, Multiset.filter_add]
  rfl

theorem aboveCold_landed_cold (h : Hierarchy K V) (k : K) (e : Entry V)
    (rest : List (Level × K × Entry V)) :
    (h.landed .cold k e).aboveCold (sentFrom .cold ((h.tier .cold).put k e).evicted ++ rest) =
      h.aboveCold rest :=
  aboveCold_of_cold (fun m hm => (tier_landed h .cold m k e).trans (if_neg hm)) _ rest

/-- An entry that lands was above the coldest tier, and so was what it displaces there. -/
theorem aboveCold_landed_le (h : Hierarchy K V) {l next : Level} {k : K} {e : Entry V}
    (hcolder : l.colder = some next) (rest : List (Level × K × Entry V)) :
    (h.landed next k e).aboveCold (sentFrom next ((h.tier next).put k e).evicted ++ rest) ≤
      h.aboveCold ((l, k, e) :: rest) := by
  by_cases hnext : next = .cold
  · subst hnext
    rw [aboveCold_landed_cold]
    exact aboveCold_cons_le h _ rest
  · rw [aboveCold_cons (Level.ne_cold_of_colder hcolder), ← Multiset.singleton_add]
    apply aboveCold_takeOver_le hnext (fun m => tier_landed h next m k e) {(k, e)}
    rw [Tier.contents_put, ← Multiset.singleton_add]
    exact add_le_add_right (Multiset.filter_le _ _) _

/-- At most one entry of a key is above the coldest tier, none that is stored there was written
before it, and none at all was written later than now. -/
structure Layered (ttl : Level → Nat) (now : Int) (h : Hierarchy K V)
    (flight : List (Level × K × Entry V)) : Prop where
  once : ((h.aboveCold flight).map Prod.fst).Nodup
  newest : ∀ k e d, (k, e) ∈ h.aboveCold flight → (h.tier .cold).store.get? k = some d →
    e.insertedAt ≤ d.insertedAt
  written : Everywhere ttl (fun _ _ e => e.insertedAt ≤ now) h flight

namespace Layered

variable {ttl : Level → Nat} {now : Int} {h h' : Hierarchy K V}
  {flight flight' rest : List (Level × K × Entry V)} {l m next : Level} {k : K} {e : Entry V}

theorem of_le (hh : Layered ttl now h flight) (hle : h'.aboveCold flight' ≤ h.aboveCold flight)
    (hcold : (h'.tier .cold).Within (h.tier .cold))
    (hwritten : Everywhere ttl (fun _ _ e => e.insertedAt ≤ now) h' flight') :
    Layered ttl now h' flight' where
  once := Multiset.nodup_of_le (Multiset.map_le_map hle) hh.once
  newest k e d he hd := hh.newest k e d (Multiset.mem_of_le hle he) (hcold.stored k d hd)
  written := hwritten

theorem of_within (hh : Layered ttl now h []) (hwithin : ∀ l, (h'.tier l).Within (h.tier l)) :
    Layered ttl now h' [] :=
  hh.of_le (aboveCold_le_of_within hwithin []) (hwithin .cold)
    (hh.written.of_within hwithin fun _ hp => hp)

/-- An entry comes into the coldest tier, and those above it that have its key are no newer. -/
theorem of_put_cold (hh : Layered ttl now h flight)
    (hle : h'.aboveCold flight' ≤ h.aboveCold flight)
    (hcold : h'.tier .cold = ((h.tier .cold).put k e).tier)
    (hkey : ∀ d, (k, d) ∈ h'.aboveCold flight' → d.insertedAt ≤ e.insertedAt)
    (hwritten : Everywhere ttl (fun _ _ e => e.insertedAt ≤ now) h' flight') :
    Layered ttl now h' flight' where
  once := Multiset.nodup_of_le (Multiset.map_le_map hle) hh.once
  newest j c d hc hd := by
    rw [hcold] at hd
    by_cases hj : j = k
    · subst hj
      rw [Tier.get?_put_self] at hd
      exact Option.some.inj hd ▸ hkey c hc
    · exact hh.newest j c d (Multiset.mem_of_le hle hc) (Tier.stored_of_put hj hd)
  written := hwritten

/-- An entry comes in above the coldest tier, and the others of its key are gone. -/
theorem of_put_above (hh : Layered ttl now h flight)
    (hle : h'.aboveCold flight' ≤ (k, e) ::ₘ (h.aboveCold flight).filter fun p => p.1 ≠ k)
    (hcold : h'.tier .cold = ((h.tier .cold).remove k).2)
    (hwritten : Everywhere ttl (fun _ _ e => e.insertedAt ≤ now) h' flight') :
    Layered ttl now h' flight' where
  once := by
    apply Multiset.nodup_of_le (Multiset.map_le_map hle)
    rw [Multiset.map_cons, Multiset.nodup_cons]
    refine ⟨?_, Multiset.nodup_of_le (Multiset.map_le_map (Multiset.filter_le _ _)) hh.once⟩
    intro hk
    obtain ⟨p, hp, hpk⟩ := Multiset.mem_map.1 hk
    exact (Multiset.mem_filter.1 hp).2 hpk
  newest j c d hc hd := by
    rw [hcold] at hd
    have hjk : j ≠ k := by
      rintro rfl
      rw [Tier.get?_remove_self] at hd
      exact absurd hd (by simp)
    rcases Multiset.mem_cons.1 (Multiset.mem_of_le hle hc) with heq | hc
    · exact absurd (Prod.mk.inj heq).1 hjk
    · exact hh.newest j c d (Multiset.mem_filter.1 hc).1 ((Tier.remove_within _ k).stored j d hd)
  written := hwritten

/-- After a placement the other entries of the key are gone. -/
theorem placed (hh : Layered ttl now h []) (l : Level) (he : e.insertedAt ≤ now)
    (htier : ∀ m, h'.tier m = (h.placed l k e).tier m) :
    Layered ttl now h' (sentFrom l ((h.tier l).put k e).evicted) := by
  have hwritten := hh.written.placed (l := l) (k := k) he htier
  have hothers : ∀ m, m ≠ l → h'.tier m = (h.remove k).tier m := by
    intro m hm
    rw [htier, tier_placed, if_neg hm, tier_remove]
  have hself : h'.tier l = ((h.tier l).put k e).tier := by
    rw [htier, tier_placed, if_pos rfl]
  -- In the coldest tier the entry is the newest of its key, above it the only one.
  by_cases hl : l = .cold
  · subst hl
    have habove : h'.aboveCold (sentFrom .cold ((h.tier .cold).put k e).evicted) =
        (h.aboveCold []).filter fun p => p.1 ≠ k := by
      rw [← aboveCold_remove, ← aboveCold_of_cold hothers _ [], List.append_nil]
    refine hh.of_put_cold (habove ▸ Multiset.filter_le _ _) hself ?_ hwritten
    intro d hd
    rw [habove, Multiset.mem_filter] at hd
    exact absurd rfl hd.2
  · have hboth : ∀ m, h'.tier m =
        if m = l then ((h.tier l).put k e).tier else (h.remove k).tier m := by
      intro m
      by_cases hm : m = l
      · rw [if_pos hm, hm, hself]
      · rw [if_neg hm, hothers m hm]
    have hle := aboveCold_takeOver_le hl hboth {(k, e)}
      (by rw [Tier.contents_put, tier_remove, Tier.contents_remove, Multiset.singleton_add]) []
    rw [List.append_nil, aboveCold_remove, Multiset.singleton_add] at hle
    refine hh.of_put_above hle ?_ hwritten
    rw [hothers .cold (Ne.symm hl), tier_remove]

/-- The key of an entry that has left a tier above the coldest one is stored in none of these. -/
theorem not_stored (hh : Layered ttl now h flight) (hflight : (l, k, e) ∈ flight) (hl : l ≠ .cold)
    (hm : m ≠ .cold) : (h.tier m).store.get? k = none := by
  have honce := hh.once
  rw [aboveCold, Multiset.map_add, Multiset.nodup_add] at honce
  cases hstored : (h.tier m).store.get? k with
  | none => rfl
  | some d =>
    have hfalling : k ∈ (falling flight : Multiset (K × Entry V)).map Prod.fst :=
      Multiset.mem_map.2 ⟨(k, e), mem_falling hl hflight, rfl⟩
    have habove := Multiset.mem_map_of_mem Prod.fst (mem_contents_of_stored hm hstored)
    exact absurd habove (Multiset.disjoint_left.1 honce.2.2 hfalling)

theorem resized (hh : Layered ttl now h []) (l : Level) (capacity : Capacity) :
    Layered ttl now (h.takeOver l ((h.tier l).resize capacity))
      (sentFrom l ((h.tier l).resize capacity).evicted) := by
  have hwritten := hh.written.resized l capacity
  have htier := fun m => h.tier_takeOver l m ((h.tier l).resize capacity)
  by_cases hl : l = .cold
  · subst hl
    have habove := aboveCold_of_cold (fun m hm => (htier m).trans (if_neg hm))
      ((h.tier .cold).resize capacity).evicted []
    rw [List.append_nil] at habove
    refine hh.of_le habove.le ?_ hwritten
    rw [htier, if_pos rfl]
    exact (h.tier .cold).resize_within capacity
  · refine hh.of_le ?_ ?_ hwritten
    · have hle := aboveCold_takeOver_le hl htier 0
        (by rw [Tier.contents_resize, zero_add]) []
      rwa [List.append_nil, zero_add] at hle
    · rw [htier, if_neg (Ne.symm hl)]
      exact .refl _

theorem not_mem_rest (hh : Layered ttl now h ((l, k, e) :: rest)) (hl : l ≠ .cold) (d : Entry V) :
    (k, d) ∉ h.aboveCold rest := by
  have honce := hh.once
  rw [aboveCold_cons hl, Multiset.map_cons, Multiset.nodup_cons] at honce
  exact fun hd => honce.1 (Multiset.mem_map.2 ⟨(k, d), hd, rfl⟩)

theorem landed (hh : Layered ttl now h ((l, k, e) :: rest)) (hcolder : l.colder = some next)
    (hwritten : Everywhere ttl (fun _ _ e => e.insertedAt ≤ now) (h.landed next k e)
      (sentFrom next ((h.tier next).put k e).evicted ++ rest)) :
    Layered ttl now (h.landed next k e)
      (sentFrom next ((h.tier next).put k e).evicted ++ rest) := by
  have hle := h.aboveCold_landed_le (k := k) (e := e) hcolder rest
  by_cases hnext : next = .cold
  · subst hnext
    refine hh.of_put_cold hle ((tier_landed h .cold .cold k e).trans (if_pos rfl)) ?_ hwritten
    intro d hd
    rw [aboveCold_landed_cold] at hd
    exact absurd hd (hh.not_mem_rest (Level.ne_cold_of_colder hcolder) d)
  · refine hh.of_le hle ?_ hwritten
    rw [tier_landed, if_neg (Ne.symm hnext)]
    exact .refl _

theorem loaded {v : V} (hh : Layered ttl now h [])
    (hwritten : Everywhere ttl (fun _ _ e => e.insertedAt ≤ now) (h.loaded k ⟨v, now⟩)
      (sentFrom .cold ((h.tier .cold).put k ⟨v, now⟩).evicted)) :
    Layered ttl now (h.loaded k ⟨v, now⟩)
      (sentFrom .cold ((h.tier .cold).put k ⟨v, now⟩).evicted) := by
  have htier := fun m => tier_loaded h m k ⟨v, now⟩
  have habove := aboveCold_of_cold (fun m hm => (htier m).trans (if_neg hm))
    ((h.tier .cold).put k ⟨v, now⟩).evicted []
  rw [List.append_nil] at habove
  refine hh.of_put_cold habove.le ((htier .cold).trans (if_pos rfl)) ?_ hwritten
  intro d hd
  rw [habove, aboveCold] at hd
  rcases Multiset.mem_add.1 hd with hd | hd
  · exact absurd hd (Multiset.notMem_zero _)
  · rcases Multiset.mem_add.1 hd with hd | hd
    · exact hh.written.stored .hot k d ((Tier.mem_contents_iff _ k d).1 hd)
    · exact hh.written.stored .warm k d ((Tier.mem_contents_iff _ k d).1 hd)

/-- An entry that can land in a tier finds no other one of its key there. -/
theorem not_stored_of_lands (hh : Layered ttl now h flight) (hflight : (l, k, e) ∈ flight)
    (hcolder : l.colder = some next) (hage : e.expired (h.tier next).ttl now = false)
    (hheld : h.contains k now = false) : (h.tier next).store.get? k = none := by
  have hl := Level.ne_cold_of_colder hcolder
  by_cases hnext : next = .cold
  · subst hnext
    -- The coldest tier may store one, but no older one, and so it would be held.
    cases hstored : (h.tier .cold).store.get? k with
    | none => rfl
    | some d =>
      have hmem : (k, e) ∈ h.aboveCold flight :=
        Multiset.mem_add.2 (.inl (mem_falling hl hflight))
      have hage := Entry.not_expired_of_newer (hh.newest k e d hmem hstored) hage
      have hcontains : (h.tier .cold).contains k now :=
        (Tier.contains_iff _ k now).2 ⟨d, hstored, hage⟩
      rw [(h.not_contains_iff k now).1 hheld .cold] at hcontains
      exact absurd hcontains (by simp)
  · exact hh.not_stored hflight hl hnext

end Layered

theorem layered_tracedWrites (ttl : Level → Nat) (now : Int) (allowed : K → V → Prop) :
    TracedWrites now allowed (Layered (K := K) (V := V) ttl now) :=
  have hwritten : TracedWrites now allowed
      (Everywhere (K := K) (V := V) ttl fun _ _ e => e.insertedAt ≤ now) :=
    everywhere_tracedWrites ⟨fun _ _ _ _ _ _ he => he, fun _ _ _ _ _ _ he => he⟩
      fun _ _ _ _ => Int.le_refl now
  { missed := fun h hh => ⟨hh.once, hh.newest, hwritten.missed h hh.written⟩
    lookedUp := fun h l k hh =>
      hh.of_within (h.within_setTier ((h.tier l).lookup_within k now))
    served := fun h l k hh => hh.of_within (h.within_setTier ((h.tier l).touch_within k))
    raised := fun h source target k e hfind _ hh =>
      hh.placed target (hh.written.stored source k e (Option.filter_eq_some_iff.1 hfind).1)
        fun _ => rfl
    resized := fun h l capacity hh => hh.resized l capacity
    purged := fun h hh => hh.of_within fun l => by
      rw [tier_purgeExpired]
      exact (h.tier l).purge_within now
    pruned := fun h staleness hh => ⟨hh.once, hh.newest, hwritten.pruned h staleness hh.written⟩
    gone := fun h l k e rest hage hh =>
      hh.of_le (aboveCold_cons_le _ _ rest) (.refl _) (hwritten.gone h l k e rest hage hh.written)
    superseded := fun h l k e rest hheld hh =>
      hh.of_le (aboveCold_cons_le _ _ rest) (.refl _)
        (hwritten.superseded h l k e rest hheld hh.written)
    lands := fun h l next k e rest hcolder hage hheld hh =>
      hh.landed hcolder (hwritten.lands h l next k e rest hcolder hage hheld hh.written)
    written := fun h l k v _ hh => hh.placed l (Int.le_refl now) fun m => by
      rw [tier_placed, tier_placed]
      rfl
    loaded := fun h k v hv hheld hh => hh.loaded (hwritten.loaded h k v hv hheld hh.written)
    removed := fun h k hh => hh.of_within fun l => by
      rw [tier_remove]
      exact (h.tier l).remove_within k
    cleared := fun h hh => hh.of_within fun l => by
      rw [tier_clear]
      exact (h.tier l).clear_within }

theorem layered_traced (ttl : Level → Nat) (now : Int) :
    Traced now (Layered (K := K) (V := V) ttl now) :=
  (layered_tracedWrites ttl now fun _ _ => True).toTraced

theorem layered_later {ttl : Level → Nat} (now : Int) (time : Nat) (h : Hierarchy K V)
    (hh : Layered ttl now h []) : Layered ttl (now + time) h [] where
  once := hh.once
  newest := hh.newest
  written :=
    have hnow : now ≤ now + time := Int.le_add_of_nonneg_right (Int.natCast_nonneg time)
    ⟨hh.written.ttl, fun l k e he => (hh.written.stored l k e he).trans hnow,
      fun l k e he => (hh.written.inFlight l k e he).trans hnow⟩

theorem layered_new {config : Config} {stripe : K → Nat} {h : Hierarchy K V}
    (hnew : new config stripe = .ok h) (now : Int) :
    Layered (fun l => (h.tier l).ttl) now h [] := by
  obtain ⟨capacities, -, rfl⟩ := eq_fresh_of_new hnew
  have hempty : ∀ l, ((fresh config stripe capacities : Hierarchy K V).tier l).store =
      Store.empty := by
    intro l
    rw [tier_fresh]
    rfl
  refine ⟨List.nodup_nil, ?_, fun _ => rfl, ?_, ?_⟩
  · intro k e d _ hd
    rw [hempty] at hd
    exact absurd hd (by simp)
  · intro l k e he
    rw [hempty] at he
    exact absurd he (by simp)
  · intro l k e he
    exact absurd he (by simp)

end Hierarchy

namespace Session

variable {K V : Type} [DecidableEq K]

theorem layered_run {config : Config} {stripe : K → Nat} {s : Session K V}
    (hnew : Hierarchy.new config stripe = .ok s.hierarchy) (ops : List (Operation K V)) :
    Hierarchy.Layered (fun l => (s.hierarchy.tier l).ttl) (s.run ops).2.now
      (s.run ops).2.hierarchy [] :=
  run_traced
    (fun now => Hierarchy.layered_tracedWrites (fun l => (s.hierarchy.tier l).ttl) now
      fun _ _ => True)
    Hierarchy.layered_later s ops (fun _ _ _ _ _ => trivial) (Hierarchy.layered_new hnew s.now)

end Session

end TieredCache
