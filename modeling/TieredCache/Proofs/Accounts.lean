import Mathlib.Algebra.BigOperators.Group.List.Basic
import TieredCache.Proofs.LastWrite

/-!
# Nothing leaves unaccounted

An entry that a put has added is stored, or it was counted once when it left: as an eviction, as an
expiration or as taken out. A move that was opened has ended as a write, a promotion, a demotion or
an eviction. It cannot have ended because another entry of its key was found, since there is none.
-/

namespace TieredCache

namespace Moves

/-- How many moves were ever opened, on all stripes together. -/
def total (m : Moves) : Nat :=
  (m.started.entries.map Prod.snd).sum

theorem total_start (m : Moves) (i : Nat) : (m.start i).total = m.total + 1 := by
  have hinsert : (m.start i).total =
      m.startedOn i + 1 + ((m.started.erase i).entries.map Prod.snd).sum := rfl
  have hsplit : m.total = m.startedOn i + ((m.started.erase i).entries.map Prod.snd).sum := by
    unfold total startedOn
    cases hi : m.started.get? i with
    | none => rw [m.started.erase_of_get?_eq_none hi, Option.getD_none, Nat.zero_add]
    | some n =>
      rw [((m.started.entries_perm_erase hi).map Prod.snd).sum_eq, List.map_cons, List.sum_cons,
        Option.getD_some]
  omega

theorem total_finish (m : Moves) (i : Nat) : (m.finish i).total = m.total := by
  unfold finish
  split <;> rfl

theorem total_foldl_start {K : Type} (stripe : K → Nat) (keys : List K) (m : Moves) :
    (keys.foldl (fun m k => m.start (stripe k)) m).total = m.total + keys.length := by
  induction keys generalizing m with
  | nil => rfl
  | cons k keys ih =>
    rw [List.foldl_cons, ih, total_start, List.length_cons]
    omega

end Moves

namespace Tier

variable {K V : Type}

theorem card_contents (t : Tier K V) : t.contents.card = t.size :=
  Multiset.coe_card _

variable [DecidableEq K]

theorem size_erase (t : Tier K V) {k : K} {e : Entry V} (h : t.store.get? k = some e) :
    (t.store.erase k).size + 1 = t.size :=
  (t.store.entries_perm_erase h).length_eq.symm

theorem size_remove (t : Tier K V) (k : K) :
    (t.remove k).2.size + (if t.store.contains k then 1 else 0) = t.size := by
  unfold remove Store.contains
  cases hk : t.store.get? k with
  | none => rfl
  | some e => exact t.size_erase hk

theorem lookup_accounts (t : Tier K V) (k : K) (now : Int) :
    (t.lookup k now).2.size + (t.lookup k now).2.expirations = t.size + t.expirations := by
  unfold lookup
  split
  · rfl
  · rename_i hk
    split
    · have herase := t.size_erase hk
      simp only [size, discard] at herase ⊢
      omega
    · rfl

theorem purge_accounts (t : Tier K V) (now : Int) :
    (t.purge now).2.size + (t.purge now).2.expirations = t.size + t.expirations := by
  have hsplit := t.store.entries.length_eq_countP_add_countP fun p => p.2.expired t.ttl now
  simp only [purge, size, Store.size, Store.filter, Store.count, ← List.countP_eq_length_filter]
  simp only [Bool.not_eq_true, Bool.decide_eq_false] at hsplit
  omega

end Tier

namespace Hierarchy

variable {K V : Type}

theorem card_contents (h : Hierarchy K V) :
    h.contents.card = (h.tier .hot).size + (h.tier .warm).size + (h.tier .cold).size := by
  simp only [contents, Multiset.card_add, Tier.card_contents]

/-- How many entries all tiers have dropped because they had expired. -/
def expirations (h : Hierarchy K V) : Nat :=
  (h.tier .hot).expirations + (h.tier .warm).expirations + (h.tier .cold).expirations

theorem expirations_congr {h h' : Hierarchy K V}
    (hsame : ∀ l, (h'.tier l).expirations = (h.tier l).expirations) :
    h'.expirations = h.expirations := by
  simp only [expirations, hsame]

theorem expirations_setTier (h : Hierarchy K V) (l : Level) (t : Tier K V) :
    (h.setTier l t).expirations + (h.tier l).expirations = h.expirations + t.expirations := by
  cases l <;> simp only [expirations, tier_setTier, reduceCtorEq, if_true, if_false] <;> omega

theorem expirations_takeOver (h : Hierarchy K V) {l : Level} {d : Displacement K V}
    (hd : d.tier.expirations = (h.tier l).expirations) :
    (h.takeOver l d).expirations = h.expirations := by
  apply expirations_congr
  intro m
  rw [tier_takeOver]
  split
  · rename_i hm
    rw [hm, hd]
  · rfl

theorem total_takeOver (h : Hierarchy K V) (l : Level) {d : Displacement K V}
    (hannounced : d.announced = d.evicted.map Prod.fst) :
    (h.takeOver l d).moves.total = h.moves.total + d.evicted.length := by
  rw [takeOver_eq]
  simp only [Moves.total_foldl_start, hannounced, List.length_map]

/-- The entries that puts have added are accounted for, and so are the moves. Each entry in flight
has its move open. -/
structure Accounted (admitted taken written : Nat) (h : Hierarchy K V)
    (flight : List (K × Entry V)) : Prop where
  distinct : h.Distinct flight
  entries : flight.length + h.contents.card + h.expirations + h.counters.evictions + taken =
    admitted
  moves : h.moves.total = flight.length + written + h.counters.promotions +
    h.counters.demotions + h.counters.evictions

theorem Accounted.gone {h : Hierarchy K V} {admitted taken written : Nat} {k : K} {e : Entry V}
    {rest : List (K × Entry V)} (hh : Accounted admitted taken written h ((k, e) :: rest)) :
    Accounted admitted taken written (h.countEviction.finishMove k) rest := by
  have hentries := hh.entries
  have hmoves := hh.moves
  have htotal : (h.countEviction.finishMove k).moves.total = h.moves.total :=
    Moves.total_finish _ _
  have hcounters : (h.countEviction.finishMove k).counters =
    { h.counters with evictions := h.counters.evictions + 1 } := rfl
  have hcontents : (h.countEviction.finishMove k).contents = h.contents := rfl
  have hexpirations : (h.countEviction.finishMove k).expirations = h.expirations := rfl
  rw [List.length_cons] at hentries hmoves
  refine ⟨hh.distinct.of_le ?_, ?_, ?_⟩
  · rw [hcontents, ← Multiset.cons_coe, Multiset.cons_add]
    exact Multiset.le_cons_self _ _
  · simp only [hcontents, hexpirations, hcounters]
    omega
  · simp only [htotal, hcounters]
    omega

theorem Accounted.clear {h : Hierarchy K V} {admitted taken written : Nat}
    (hh : Accounted admitted taken written h []) :
    Accounted admitted (taken + (h.tiers.map Tier.size).sum) written h.clear [] where
  distinct := Multiset.nodup_zero
  entries := by
    have hentries := hh.entries
    have hsizes : (h.tiers.map Tier.size).sum = h.contents.card := h.card_contents.symm
    have hcontents : h.clear.contents = 0 := rfl
    have hcounters : h.clear.counters = h.counters := rfl
    have hexpirations : h.clear.expirations = h.expirations := rfl
    rw [hcontents, hcounters, hexpirations, hsizes, Multiset.card_zero]
    omega
  moves := hh.moves

variable [DecidableEq K]

/-- Whether any tier stores a key, expired or not. -/
def stores (h : Hierarchy K V) (k : K) : Bool :=
  Level.all.any fun l => (h.tier l).store.contains k

theorem stores_iff (h : Hierarchy K V) (k : K) : h.stores k ↔ ∃ e, (k, e) ∈ h.contents := by
  simp only [stores, List.any_eq_true, Store.contains, Option.isSome_iff_exists, mem_contents_iff]
  constructor
  · rintro ⟨l, -, e, he⟩
    exact ⟨e, l, he⟩
  · rintro ⟨e, l, he⟩
    exact ⟨l, Level.mem_all l, e, he⟩

theorem expirations_placed (h : Hierarchy K V) (l : Level) (k : K) (e : Entry V) :
    (h.placed l k e).expirations = h.expirations := by
  apply expirations_congr
  intro m
  rw [tier_placed]
  split
  · rename_i hm
    rw [hm, (Tier.put_alike _ k e).expirations]
  · exact (Tier.remove_alike _ k).expirations

theorem total_placed (h : Hierarchy K V) (l : Level) (k : K) (e : Entry V) :
    (h.placed l k e).moves.total = h.moves.total + 1 + ((h.tier l).put k e).evicted.length := by
  have htake := (h.startMove k).total_takeOver l ((h.tier l).put_announced k e)
  have hstart : (h.startMove k).moves.total = h.moves.total + 1 := Moves.total_start _ _
  rw [placed, removeOthers_eq]
  simp only [finishMove, Moves.total_finish]
  rw [htake, hstart]

theorem total_landed (h : Hierarchy K V) (l : Level) (k : K) (e : Entry V) :
    (h.landed l k e).moves.total = h.moves.total + ((h.tier l).put k e).evicted.length := by
  rw [landed, finishMove]
  simp only [Moves.total_finish]
  exact h.countDemotion.total_takeOver l ((h.tier l).put_announced k e)

theorem counters_landed (h : Hierarchy K V) (l : Level) (k : K) (e : Entry V) :
    (h.landed l k e).counters =
      { h.counters with demotions := h.counters.demotions + 1 } := by
  rw [landed, takeOver_eq]
  rfl

theorem expirations_landed (h : Hierarchy K V) (l : Level) (k : K) (e : Entry V) :
    (h.landed l k e).expirations = h.expirations :=
  h.countDemotion.expirations_takeOver (Tier.put_alike _ k e).expirations

theorem contents_landed (h : Hierarchy K V) {l : Level} {k : K}
    (hk : (h.tier l).store.get? k = none) (e : Entry V) :
    (((h.tier l).put k e).evicted : Multiset (K × Entry V)) + (h.landed l k e).contents =
      (k, e) ::ₘ h.contents := by
  apply h.countDemotion.contents_takeOver l _ {(k, e)}
  rw [Tier.contents_put, ← Tier.contents_remove, Multiset.singleton_add]
  simp only [Tier.remove, tier_countDemotion, hk]

theorem contents_resized (h : Hierarchy K V) (l : Level) (capacity : Capacity) :
    (((h.tier l).resize capacity).evicted : Multiset (K × Entry V)) +
      (h.takeOver l ((h.tier l).resize capacity)).contents = h.contents := by
  have htake := h.contents_takeOver l ((h.tier l).resize capacity) 0
    (by rw [Tier.contents_resize, zero_add])
  rwa [zero_add] at htake

namespace Accounted

variable {h : Hierarchy K V} {admitted taken written : Nat} {k : K} {e : Entry V}
  {rest : List (K × Entry V)}

theorem setTier (hh : Accounted admitted taken written h []) {l : Level} {t : Tier K V}
    (ht : t.Within (h.tier l))
    (hcount : t.size + t.expirations = (h.tier l).size + (h.tier l).expirations) :
    Accounted admitted taken written (h.setTier l t) [] where
  distinct := hh.distinct.of_le (add_le_add_right (h.contents_setTier_le l ht) _)
  entries := by
    have hentries := hh.entries
    have hexpirations := h.expirations_setTier l t
    have hcontents := congrArg Multiset.card (h.contents_setTier l t)
    simp only [Multiset.card_add, Tier.card_contents] at hcontents
    have hcounters : (h.setTier l t).counters = h.counters := rfl
    rw [hcounters]
    omega
  moves := hh.moves

/-- A placed entry replaces the one that is stored of its key, or is a new one. -/
theorem card_placed (hh : h.Distinct []) (k : K) (l : Level) (e : Entry V) :
    ((h.tier l).put k e).evicted.length + (h.placed l k e).contents.card =
      h.contents.card + if h.stores k then 0 else 1 := by
  have hplaced := congrArg Multiset.card (h.contents_placed l k e)
  rw [Multiset.card_add, Multiset.coe_card, Multiset.card_cons] at hplaced
  by_cases hk : h.stores k
  · obtain ⟨d, hd⟩ := (h.stores_iff k).1 hk
    have hstored := congrArg Multiset.card (hh.contents_eq_cons hd)
    rw [Multiset.card_cons] at hstored
    rw [if_pos hk]
    omega
  · have hothers : (h.contents.filter fun p => p.1 ≠ k) = h.contents := by
      rw [Multiset.filter_eq_self]
      rintro ⟨j, d⟩ hd rfl
      exact hk ((h.stores_iff j).2 ⟨d, hd⟩)
    rw [if_neg hk, hplaced, hothers]

theorem placed (hh : Accounted admitted taken written h []) (l : Level) (k : K) (e : Entry V) :
    Accounted (admitted + if h.stores k then 0 else 1) taken (written + 1) (h.placed l k e)
      ((h.tier l).put k e).evicted where
  distinct := Distinct.placed hh.distinct l k e
  entries := by
    have hentries := hh.entries
    have hcard := card_placed hh.distinct k l e
    rw [List.length_nil] at hentries
    rw [expirations_placed, counters_placed]
    omega
  moves := by
    have hmoves := hh.moves
    rw [List.length_nil] at hmoves
    rw [total_placed, counters_placed]
    omega

theorem raised (hh : Accounted admitted taken written h []) {source target : Level}
    (hk : (h.tier source).store.get? k = some e) :
    Accounted admitted taken written (h.raised target k e)
      ((h.tier target).put k e).evicted := by
  have hstores : h.stores k := (h.stores_iff k).2 ⟨e, (h.mem_contents_iff k e).2 ⟨source, hk⟩⟩
  -- The entry was stored already, so none is added, and its move counts as a promotion.
  have hplaced := hh.placed target k e
  rw [if_pos hstores] at hplaced
  refine ⟨hplaced.distinct, hplaced.entries, ?_⟩
  have hmoves := hplaced.moves
  have htotal : (h.raised target k e).moves.total = (h.placed target k e).moves.total := rfl
  have hcounters : (h.raised target k e).counters = { (h.placed target k e).counters with
    promotions := (h.placed target k e).counters.promotions + 1 } := rfl
  simp only [htotal, hcounters]
  omega

theorem resized (hh : Accounted admitted taken written h []) (l : Level) (capacity : Capacity) :
    Accounted admitted taken written (h.takeOver l ((h.tier l).resize capacity))
      ((h.tier l).resize capacity).evicted := by
  have hcontents := h.contents_resized l capacity
  have hcard := congrArg Multiset.card hcontents
  rw [Multiset.card_add, Multiset.coe_card] at hcard
  have hexpirations := h.expirations_takeOver (l := l)
    ((h.tier l).resize_alike capacity).expirations
  have htotal := h.total_takeOver l ((h.tier l).resize_announced capacity)
  have hcounters : (h.takeOver l ((h.tier l).resize capacity)).counters = h.counters := by
    rw [takeOver_eq]
    rfl
  have hentries := hh.entries
  have hmoves := hh.moves
  rw [List.length_nil] at hentries hmoves
  refine ⟨hh.distinct.of_le ?_, ?_, ?_⟩
  · rw [hcontents, Multiset.coe_nil, zero_add]
  · rw [hexpirations, hcounters]
    omega
  · rw [htotal, hcounters]
    omega

theorem landed (hh : Accounted admitted taken written h ((k, e) :: rest)) (l : Level) :
    Accounted admitted taken written (h.landed l k e) (((h.tier l).put k e).evicted ++ rest) := by
  have hcontents := h.contents_landed (hh.distinct.not_stored l) e
  have hcard := congrArg Multiset.card hcontents
  rw [Multiset.card_add, Multiset.coe_card, Multiset.card_cons] at hcard
  have hentries := hh.entries
  have hmoves := hh.moves
  rw [List.length_cons] at hentries hmoves
  refine ⟨hh.distinct.of_le (le_of_eq ?_), ?_, ?_⟩
  · rw [← Multiset.coe_add, add_right_comm, hcontents, ← Multiset.cons_coe, Multiset.cons_add,
      Multiset.cons_add, add_comm]
  · simp only [List.length_append, expirations_landed, counters_landed]
    omega
  · simp only [List.length_append, total_landed, counters_landed]
    omega

theorem purged (hh : Accounted admitted taken written h []) (now : Int) :
    Accounted admitted taken written (h.purgeExpired now).2 [] where
  distinct := hh.distinct.of_le (add_le_add_right (h.contents_purgeExpired_le now) _)
  entries := by
    have hentries := hh.entries
    have hhot := (h.tier .hot).purge_accounts now
    have hwarm := (h.tier .warm).purge_accounts now
    have hcold := (h.tier .cold).purge_accounts now
    have hcounters : (h.purgeExpired now).2.counters = h.counters := rfl
    simp only [card_contents, expirations, tier_purgeExpired, hcounters] at hentries ⊢
    omega
  moves := hh.moves

end Accounted

theorem accounted_traced (now : Int) (admitted taken written : Nat) :
    Traced now fun (h : Hierarchy K V) flight =>
      h.Accounted admitted taken written (flight.map Prod.snd) where
  missed h hh := ⟨hh.distinct, hh.entries, hh.moves⟩
  lookedUp h l k hh :=
    hh.setTier ((h.tier l).lookup_within k now) ((h.tier l).lookup_accounts k now)
  served h l k hh := by
    have htouched := hh.setTier ((h.tier l).touch_within k)
      (by rw [Tier.size, (Tier.touch_alike _ k).expirations, Tier.store_touch, ← Tier.size])
    exact ⟨htouched.distinct, htouched.entries, htouched.moves⟩
  raised h source target k e hfind _ hh := by
    rw [map_snd_sentFrom]
    exact hh.raised (Option.filter_eq_some_iff.1 hfind).1
  resized h l capacity hh := by
    rw [map_snd_sentFrom]
    exact hh.resized l capacity
  purged h hh := hh.purged now
  pruned h staleness hh := ⟨hh.distinct, hh.entries, hh.moves⟩
  gone h l k e rest _ hh := hh.gone
  superseded h l k e rest hheld hh := by
    -- The key is in flight, so it is stored in no tier and cannot have been found in one.
    rw [hh.distinct.not_contains now] at hheld
    exact absurd hheld (by simp)
  lands h l next k e rest _ _ _ hh := by
    rw [List.map_append, map_snd_sentFrom]
    exact hh.landed next

namespace Accounted

variable {h : Hierarchy K V} {admitted taken written : Nat}

theorem put (hh : Accounted admitted taken written h []) (k : K) (v : V) (now : Int) :
    Accounted (admitted + if h.stores k then 0 else 1) taken (written + 1) (h.put k v now) [] := by
  have hrecorded : Accounted admitted taken written (h.recordAccess k now).2 [] :=
    ⟨hh.distinct, hh.entries, hh.moves⟩
  apply (accounted_traced now _ _ _).settleAll
  rw [map_snd_sentFrom]
  exact hrecorded.placed _ k ⟨v, now⟩

theorem remove (hh : Accounted admitted taken written h []) (k : K) :
    Accounted admitted (taken + Level.all.countP fun l => (h.tier l).store.contains k) written
      (h.remove k) [] where
  distinct := by
    apply hh.distinct.of_le
    rw [contents_remove]
    exact add_le_add_right (Multiset.filter_le _ _) _
  entries := by
    have hentries := hh.entries
    have hhot := (h.tier .hot).size_remove k
    have hwarm := (h.tier .warm).size_remove k
    have hcold := (h.tier .cold).size_remove k
    have hcounters : (h.remove k).counters = h.counters := rfl
    have hexpirations : (h.remove k).expirations = h.expirations :=
      expirations_congr fun l => (tier_remove h k l).symm ▸ (Tier.remove_alike _ k).expirations
    simp only [card_contents, tier_remove, hcounters, hexpirations, Level.all, List.countP_cons,
      List.countP_nil] at hentries ⊢
    omega
  moves := hh.moves

end Accounted

end Hierarchy

/-! ### Runs -/

/-- Whether an operation puts a value. -/
def Operation.isPut {K V : Type} : Operation K V → Bool
  | .put _ _ => true
  | _ => false

namespace Session

variable {K V : Type} [DecidableEq K]

/-- The sum over a run of what each operation counts for in the state that it is applied to. -/
def tally (count : Session K V → Operation K V → Nat) (s : Session K V) :
    List (Operation K V) → Nat
  | [] => 0
  | op :: rest => count s op + tally count (s.step op).2 rest

/-- A put adds an entry if no tier stores its key. -/
def admitted (s : Session K V) : Operation K V → Nat
  | .put k _ => if s.hierarchy.stores k then 0 else 1
  | _ => 0

/-- The number of entries that a removal finds. -/
def takenOut (s : Session K V) : Operation K V → Nat
  | .remove k => Level.all.countP fun l => (s.hierarchy.tier l).store.contains k
  | .clear => (s.hierarchy.tiers.map Tier.size).sum
  | _ => 0

theorem accounted_step {s : Session K V} {a t w : Nat} (op : Operation K V)
    (hop : op.isSpeculative = false) (hs : s.hierarchy.Accounted a t w []) :
    (s.step op).2.hierarchy.Accounted (a + s.admitted op) (t + s.takenOut op)
      (w + if op.isPut then 1 else 0) [] := by
  have htraced := Hierarchy.accounted_traced (K := K) (V := V) s.now a t w
  cases op with
  | get k => exact htraced.get s.hierarchy k hs
  | put k v => exact hs.put k v s.now
  | putSpeculative k v => exact absurd hop (by simp [Operation.isSpeculative])
  | remove k => exact hs.remove k
  | clear => exact hs.clear
  | contains k => exact hs
  | levelOf k => exact hs
  | resizeTier l capacity => exact htraced.resizeTier s.hierarchy l capacity hs
  | purgeExpired => exact htraced.purged s.hierarchy hs
  | pruneHistories staleness => exact htraced.pruned s.hierarchy staleness hs
  | sweep staleness => exact htraced.pruned _ staleness (htraced.purged s.hierarchy hs)
  | tune => exact htraced.tuneTiers Level.all s.tuner s.hierarchy hs
  | loadAhead keys load => exact absurd hop (by simp [Operation.isSpeculative])
  | advance time => exact hs

theorem accounted_run {s : Session K V} {a t w : Nat} (ops : List (Operation K V))
    (hops : ∀ op ∈ ops, op.isSpeculative = false) (hs : s.hierarchy.Accounted a t w []) :
    (s.run ops).2.hierarchy.Accounted (a + s.tally admitted ops) (t + s.tally takenOut ops)
      (w + ops.countP Operation.isPut) [] := by
  induction ops generalizing s a t w with
  | nil => exact hs
  | cons op rest ih =>
    have hstep := accounted_step op (hops op List.mem_cons_self) hs
    have hrest := ih (fun op' hop' => hops op' (List.mem_cons_of_mem op hop')) hstep
    rw [run_cons, tally, tally, List.countP_cons]
    rw [Nat.add_assoc, Nat.add_assoc, Nat.add_assoc] at hrest
    rwa [Nat.add_comm (List.countP _ _)]

/-- In runs without speculative writes each key is stored at most once. The entries stored and
those that were evicted, dropped as expired or taken out are as many as were added. Every move that
was opened is a write, a promotion, a demotion or an eviction, so none found its key superseded. -/
theorem nothing_unaccounted {config : Config} {stripe : K → Nat} (s : Session K V)
    (hnew : Hierarchy.new config stripe = .ok s.hierarchy) (ops : List (Operation K V))
    (hops : ∀ op ∈ ops, op.isSpeculative = false) :
    let t := (s.run ops).2.hierarchy
    (∀ k l m, (t.tier l).store.contains k → (t.tier m).store.contains k → l = m) ∧
    t.statistics.sizes.sum + t.statistics.evictions + t.statistics.expirations +
      s.tally takenOut ops = s.tally admitted ops ∧
    t.moves.total = ops.countP Operation.isPut + t.statistics.promotions +
      t.statistics.demotions + t.statistics.evictions := by
  intro t
  have hstart : s.hierarchy.Accounted 0 0 0 [] := by
    obtain ⟨capacities, -, hfresh⟩ := Hierarchy.eq_fresh_of_new hnew
    rw [hfresh]
    exact ⟨Multiset.nodup_zero, rfl, rfl⟩
  have hend : t.Accounted (s.tally admitted ops) (s.tally takenOut ops)
      (ops.countP Operation.isPut) [] := by
    have hrun := accounted_run ops hops hstart
    rwa [Nat.zero_add, Nat.zero_add, Nat.zero_add] at hrun
  refine ⟨?_, ?_, ?_⟩
  · intro k l m hl hm
    by_contra hne
    obtain ⟨e, he⟩ := Option.isSome_iff_exists.1 hl
    rw [Store.contains, hend.distinct.stored_once he (Ne.symm hne)] at hm
    exact absurd hm (by simp)
  · have hentries := hend.entries
    have hsizes : t.statistics.sizes.sum = t.contents.card := t.card_contents.symm
    have hexpirations : t.statistics.expirations = t.expirations := rfl
    have hevictions : t.statistics.evictions = t.counters.evictions := rfl
    rw [hsizes, hexpirations, hevictions]
    rw [List.length_nil] at hentries
    omega
  · have hmoves := hend.moves
    rw [List.length_nil, Nat.zero_add] at hmoves
    exact hmoves

/-- Entries that leave on every way, beside a key that is put twice. -/
theorem nothing_unaccounted_of_five :
    let ops : List (Operation Nat Nat) := [.put 1 10, .put 2 20, .put 2 21, .put 3 30, .put 4 40,
      .remove 3, .advance 6, .get 4, .put 5 50, .clear]
    let t := (narrowStart.run ops).2.hierarchy
    Hierarchy.new narrow (fun _ => 0) = .ok narrowStart.hierarchy ∧
      (∀ op ∈ ops, op.isSpeculative = false) ∧
      t.statistics.evictions = 1 ∧ t.statistics.expirations = 1 ∧
      narrowStart.tally takenOut ops = 3 ∧
      t.statistics.sizes.sum + t.statistics.evictions + t.statistics.expirations +
        narrowStart.tally takenOut ops = narrowStart.tally admitted ops ∧
      t.moves.total = 6 + t.statistics.promotions + t.statistics.demotions +
        t.statistics.evictions := by
  intro ops t
  have hnew : Hierarchy.new narrow (fun _ => 0) = .ok narrowStart.hierarchy := rfl
  have hops : ∀ op ∈ ops, op.isSpeculative = false := by decide
  obtain ⟨-, hcounts, hmoves⟩ := nothing_unaccounted narrowStart hnew ops hops
  exact ⟨hnew, hops, by decide, by decide, by decide, hcounts, hmoves⟩

end Session

end TieredCache
