import TieredCache.Proofs.TierOrder

/-!
# A tier is a recency list

Requests to a single tier, and one list of entries that answers them. The tier keeps a store and an
order of its keys side by side; the list is both. No sequence of requests tells the two apart.
-/

namespace TieredCache

namespace Tier

/-- What is asked of a tier. A sweep brings its own instant, and an entry its own age. -/
inductive Request (K V : Type) where
  | put (k : K) (e : Entry V)
  | get (k : K)
  | contains (k : K)
  | touch (k : K)
  | remove (k : K)
  | resize (capacity : Capacity)
  | purge (instant : Int)
  | clear
  | advance (time : Nat)

inductive Reply (K V : Type) where
  | done
  | found (e : Option (Entry V))
  | truth (b : Bool)
  | handedBack (entries : List (K × Entry V))
  | count (n : Nat)

/-- What is seen of a tier once it has answered: the reply, the keys announced meanwhile, and how
the tier stands now. -/
structure Observation (K V : Type) where
  reply : Reply K V
  announced : List K
  length : Nat
  capacity : Nat
  expirations : Nat

variable {K V : Type}

/-- The instant after a request that was made now. -/
def Request.next (now : Int) : Request K V → Int
  | .advance time => now + time
  | _ => now

def Reply.keysHandedBack : Reply K V → List K
  | .handedBack entries => entries.map Prod.fst
  | _ => []

variable [DecidableEq K]

/-- Answers a request. Returns the reply, the announced keys, and the tier afterwards. -/
def answer (t : Tier K V) (now : Int) : Request K V → Reply K V × List K × Tier K V
  | .put k e =>
    let d := t.put k e
    (.handedBack d.evicted, d.announced, d.tier)
  | .get k =>
    let (e, t) := t.lookup k now
    (.found e, [], t)
  | .contains k => (.truth (t.contains k now), [], t)
  | .touch k => (.done, [], t.touch k)
  | .remove k =>
    let (e, t) := t.remove k
    (.found e, [], t)
  | .resize capacity =>
    let d := t.resize capacity
    (.handedBack d.evicted, d.announced, d.tier)
  | .purge instant =>
    let (n, t) := t.purge instant
    (.count n, [], t)
  | .clear => (.done, [], t.clear)
  | .advance _ => (.done, [], t)

def observations (t : Tier K V) (now : Int) : List (Request K V) → List (Observation K V)
  | [] => []
  | request :: rest =>
    let (reply, announced, t) := t.answer now request
    ⟨reply, announced, t.size, t.capacity.value, t.expirations⟩ ::
      t.observations (request.next now) rest

end Tier

/-- Entries with their keys, most recently touched first. -/
structure RecencyList (K V : Type) where
  capacity : Capacity
  ttl : Nat
  entries : List (K × Entry V)
  expirations : Nat

namespace RecencyList

variable {K V : Type} [DecidableEq K]

def empty (capacity : Capacity) (ttl : Nat) : RecencyList K V := ⟨capacity, ttl, [], 0⟩

def find? (r : RecencyList K V) (k : K) : Option (Entry V) :=
  (r.entries.find? fun p => p.1 = k).map Prod.snd

def without (r : RecencyList K V) (k : K) : List (K × Entry V) :=
  r.entries.filter fun p => p.1 ≠ k

/-- Puts an entry at the front, in place of the one of its key. A new key in a full list takes the
place of the last element. -/
def put (r : RecencyList K V) (k : K) (e : Entry V) : Option (K × Entry V) × RecencyList K V :=
  if (r.find? k).isNone ∧ r.capacity.value ≤ r.entries.length then
    (r.entries.getLast?, { r with entries := (k, e) :: r.entries.dropLast })
  else (none, { r with entries := (k, e) :: r.without k })

def get (r : RecencyList K V) (k : K) (now : Int) : Option (Entry V) × RecencyList K V :=
  match r.find? k with
  | none => (none, r)
  | some e =>
    if e.expired r.ttl now then
      (none, { r with entries := r.without k, expirations := r.expirations + 1 })
    else (some e, r)

def contains (r : RecencyList K V) (k : K) (now : Int) : Bool :=
  (r.find? k).any fun e => !e.expired r.ttl now

def touch (r : RecencyList K V) (k : K) : RecencyList K V :=
  match r.find? k with
  | none => r
  | some e => { r with entries := (k, e) :: r.without k }

/-- Keeps what fits, and hands back the others, the last one first. -/
def resize (r : RecencyList K V) (capacity : Capacity) :
    List (K × Entry V) × RecencyList K V :=
  ((r.entries.drop capacity.value).reverse,
    { r with capacity, entries := r.entries.take capacity.value })

def purge (r : RecencyList K V) (now : Int) : Nat × RecencyList K V :=
  let n := r.entries.countP fun p => p.2.expired r.ttl now
  (n, { r with
    entries := r.entries.filter fun p => !p.2.expired r.ttl now
    expirations := r.expirations + n })

def answer (r : RecencyList K V) (now : Int) :
    Tier.Request K V → Tier.Reply K V × RecencyList K V
  | .put k e =>
    let (victim, r) := r.put k e
    (.handedBack victim.toList, r)
  | .get k =>
    let (e, r) := r.get k now
    (.found e, r)
  | .contains k => (.truth (r.contains k now), r)
  | .touch k => (.done, r.touch k)
  | .remove k => (.found (r.find? k), { r with entries := r.without k })
  | .resize capacity =>
    let (entries, r) := r.resize capacity
    (.handedBack entries, r)
  | .purge instant =>
    let (n, r) := r.purge instant
    (.count n, r)
  | .clear => (.done, { r with entries := [] })
  | .advance _ => (.done, r)

/-- What is seen of the list. It announces the keys that it hands back, and no others. -/
def observations (r : RecencyList K V) (now : Int) :
    List (Tier.Request K V) → List (Tier.Observation K V)
  | [] => []
  | request :: rest =>
    let (reply, r) := r.answer now request
    ⟨reply, reply.keysHandedBack, r.entries.length, r.capacity.value, r.expirations⟩ ::
      r.observations (request.next now) rest

theorem length_without_lt {r : RecencyList K V} {k : K} (hk : (r.find? k).isSome) :
    (r.without k).length < r.entries.length := by
  rw [find?, Option.isSome_map, List.find?_isSome] at hk
  obtain ⟨p, hp, hkey⟩ := hk
  unfold without
  rw [List.length_filter_lt_length_iff_exists]
  exact ⟨p, hp, by simpa using hkey⟩

theorem without_of_find?_eq_none {r : RecencyList K V} {k : K} (hk : r.find? k = none) :
    r.without k = r.entries := by
  rw [find?, Option.map_eq_none_iff, List.find?_eq_none] at hk
  apply List.filter_eq_self.2
  intro p hp
  simpa using hk p hp

/-- In a list that fits, whatever is put in front pushes out at most the last element. -/
theorem put_eq {r : RecencyList K V} (k : K) (e : Entry V)
    (hfits : r.entries.length ≤ r.capacity.value) :
    (r.put k e).1.toList = ((k, e) :: r.without k).drop r.capacity.value ∧
      (r.put k e).2 =
        { r with entries := ((k, e) :: r.without k).take r.capacity.value } := by
  have hpositive := r.capacity.positive
  unfold put
  split
  · rename_i hfull
    obtain ⟨hnone, hlength⟩ := hfull
    rw [Option.isNone_iff_eq_none] at hnone
    obtain hnil | ⟨front, last, hentries⟩ := r.entries.eq_nil_or_concat
    · rw [hnil, List.length_nil] at hlength
      omega
    · rw [List.concat_eq_append] at hentries
      have hfront : ((k, e) :: front).length = r.capacity.value := by
        rw [hentries, List.length_append, List.length_singleton] at hlength hfits
        rw [List.length_cons]
        omega
      rw [without_of_find?_eq_none hnone, hentries, ← List.cons_append, ← hfront,
        List.drop_left, List.take_left, List.getLast?_concat, List.dropLast_concat]
      exact ⟨rfl, rfl⟩
  · rename_i hroom
    have hlength : ((k, e) :: r.without k).length ≤ r.capacity.value := by
      rw [List.length_cons]
      cases hk : r.find? k with
      | none =>
        have hshort : ¬r.capacity.value ≤ r.entries.length := fun hle => hroom ⟨by rw [hk]; rfl, hle⟩
        rw [without_of_find?_eq_none hk]
        omega
      | some d =>
        have hlt := length_without_lt (r := r) (k := k) (by rw [hk]; rfl)
        omega
    rw [List.take_of_length_le hlength, List.drop_eq_nil_of_le hlength]
    exact ⟨rfl, rfl⟩

end RecencyList

namespace Tier

variable {K V : Type} [DecidableEq K] {t : Tier K V}

/-- The tier with its store and its order read as one list. -/
def toRecencyList (t : Tier K V) : RecencyList K V :=
  ⟨t.capacity, t.ttl, t.ordered, t.expirations⟩

theorem toRecencyList_of_alike {u : Tier K V} {entries : List (K × Entry V)} (h : u.Alike t)
    (hordered : u.ordered = entries) : u.toRecencyList = { t.toRecencyList with entries } := by
  unfold toRecencyList
  rw [h.capacity, h.ttl, h.expirations, hordered]

theorem Indexed.find?_toRecencyList (h : t.Indexed) (k : K) :
    t.toRecencyList.find? k = t.store.get? k := by
  rw [RecencyList.find?, toRecencyList, h.find?_ordered, Option.map_map]
  exact Option.map_id'

theorem Consistent.toRecencyList_put (h : t.Consistent) (k : K) (e : Entry V) :
    (t.put k e).evicted = (t.toRecencyList.put k e).1.toList ∧
      (t.put k e).tier.toRecencyList = (t.toRecencyList.put k e).2 := by
  obtain ⟨htier, hevicted⟩ := h.ordered_put k e
  obtain ⟨hvictim, hput⟩ := RecencyList.put_eq (r := t.toRecencyList) k e h.length_ordered_le
  constructor
  · rw [hevicted, hvictim]
    rfl
  · rw [hput]
    exact toRecencyList_of_alike (t.put_alike k e) htier

theorem Indexed.toRecencyList_lookup (h : t.Indexed) (k : K) (now : Int) :
    (t.lookup k now).1 = (t.toRecencyList.get k now).1 ∧
      (t.lookup k now).2.toRecencyList = (t.toRecencyList.get k now).2 := by
  have httl : t.toRecencyList.ttl = t.ttl := rfl
  unfold RecencyList.get Tier.lookup
  rw [h.find?_toRecencyList]
  cases hk : t.store.get? k with
  | none => exact ⟨rfl, rfl⟩
  | some e =>
    simp only [httl]
    split
    · have hdiscard : (t.discard k).toRecencyList =
          { t.toRecencyList with entries := t.toRecencyList.without k } :=
        toRecencyList_of_alike ⟨rfl, rfl, rfl, rfl⟩ (h.ordered_discard k)
      exact ⟨rfl, congrArg
        (fun r : RecencyList K V => { r with expirations := t.expirations + 1 }) hdiscard⟩
    · exact ⟨rfl, rfl⟩

theorem Indexed.toRecencyList_touch (h : t.Indexed) (k : K) :
    (t.touch k).toRecencyList = t.toRecencyList.touch k := by
  unfold RecencyList.touch
  rw [h.find?_toRecencyList]
  cases hk : t.store.get? k with
  | none =>
    have habsent : k ∉ t.recency := by
      rw [h.mem_recency_iff, Store.contains, hk]
      exact Bool.false_ne_true
    rw [Tier.touch, if_neg habsent]
  | some e => exact toRecencyList_of_alike (t.touch_alike k) (h.ordered_touch hk)

theorem Indexed.toRecencyList_remove (h : t.Indexed) (k : K) :
    (t.remove k).1 = t.toRecencyList.find? k ∧
      (t.remove k).2.toRecencyList =
        { t.toRecencyList with entries := t.toRecencyList.without k } := by
  constructor
  · rw [h.find?_toRecencyList, Tier.remove]
    cases t.store.get? k <;> rfl
  · exact toRecencyList_of_alike (t.remove_alike k) (h.ordered_remove k)

theorem Indexed.toRecencyList_resize (h : t.Indexed) (capacity : Capacity) :
    (t.resize capacity).evicted = (t.toRecencyList.resize capacity).1 ∧
      (t.resize capacity).tier.toRecencyList = (t.toRecencyList.resize capacity).2 := by
  obtain ⟨htier, hevicted⟩ := h.ordered_resize capacity
  exact ⟨hevicted, toRecencyList_of_alike (t.resize_alike capacity) htier⟩

theorem Indexed.toRecencyList_purge (h : t.Indexed) (now : Int) :
    (t.purge now).1 = (t.toRecencyList.purge now).1 ∧
      (t.purge now).2.toRecencyList = (t.toRecencyList.purge now).2 := by
  obtain ⟨hordered, hcount⟩ := h.ordered_purge now
  refine ⟨hcount, ?_⟩
  have hexpirations : (t.purge now).2.expirations = t.expirations + (t.purge now).1 := rfl
  unfold toRecencyList
  rw [hordered, hexpirations, hcount]
  rfl

theorem Indexed.contains_toRecencyList (h : t.Indexed) (k : K) (now : Int) :
    t.contains k now = t.toRecencyList.contains k now := by
  unfold RecencyList.contains Tier.contains Tier.find?
  rw [h.find?_toRecencyList, Option.isSome_filter]
  rfl

theorem Consistent.answer (h : t.Consistent) (now : Int) (request : Request K V) :
    (t.answer now request).2.2.Consistent := by
  cases request with
  | put k e => exact h.put k e
  | get k => exact h.lookup k now
  | contains k => exact h
  | touch k => exact h.touch k
  | remove k => exact h.remove k
  | resize capacity => exact h.resize capacity
  | purge instant => exact h.purge instant
  | clear => exact t.consistent_clear
  | advance time => exact h

theorem Consistent.toRecencyList_answer (h : t.Consistent) (now : Int) (request : Request K V) :
    (t.answer now request).1 = (t.toRecencyList.answer now request).1 ∧
      (t.answer now request).2.2.toRecencyList = (t.toRecencyList.answer now request).2 := by
  cases request with
  | put k e =>
    obtain ⟨hevicted, htier⟩ := h.toRecencyList_put k e
    exact ⟨congrArg Reply.handedBack hevicted, htier⟩
  | get k =>
    obtain ⟨hfound, htier⟩ := h.indexed.toRecencyList_lookup k now
    exact ⟨congrArg Reply.found hfound, htier⟩
  | contains k => exact ⟨congrArg Reply.truth (h.indexed.contains_toRecencyList k now), rfl⟩
  | touch k => exact ⟨rfl, h.indexed.toRecencyList_touch k⟩
  | remove k =>
    obtain ⟨hfound, htier⟩ := h.indexed.toRecencyList_remove k
    exact ⟨congrArg Reply.found hfound, htier⟩
  | resize capacity =>
    obtain ⟨hevicted, htier⟩ := h.indexed.toRecencyList_resize capacity
    exact ⟨congrArg Reply.handedBack hevicted, htier⟩
  | purge instant =>
    obtain ⟨hcount, htier⟩ := h.indexed.toRecencyList_purge instant
    exact ⟨congrArg Reply.count hcount, htier⟩
  | clear => exact ⟨rfl, rfl⟩
  | advance time => exact ⟨rfl, rfl⟩

/-- Only what is handed back is announced, one key after the other. -/
theorem announced_answer (t : Tier K V) (now : Int) (request : Request K V) :
    (t.answer now request).2.1 = (t.answer now request).1.keysHandedBack := by
  cases request with
  | put k e => exact t.put_announced k e
  | resize capacity => exact resize_announced _ _
  | get k => rfl
  | contains k => rfl
  | touch k => rfl
  | remove k => rfl
  | purge instant => rfl
  | clear => rfl
  | advance time => rfl

theorem Consistent.observations_eq (h : t.Consistent) (now : Int)
    (requests : List (Request K V)) :
    t.observations now requests = t.toRecencyList.observations now requests := by
  induction requests generalizing t now with
  | nil => rfl
  | cons request rest ih =>
    obtain ⟨hreply, htier⟩ := h.toRecencyList_answer now request
    have hnext := h.answer now request
    have hsize : (t.answer now request).2.2.size =
        (t.answer now request).2.2.toRecencyList.entries.length := by
      rw [← hnext.indexed.length_recency]
      exact hnext.indexed.length_ordered.symm
    have hrest := ih hnext (request.next now)
    calc t.observations now (request :: rest)
        = ⟨(t.answer now request).1, (t.answer now request).2.1, (t.answer now request).2.2.size,
            (t.answer now request).2.2.capacity.value, (t.answer now request).2.2.expirations⟩ ::
            (t.answer now request).2.2.observations (request.next now) rest := rfl
      _ = ⟨(t.answer now request).1, (t.answer now request).1.keysHandedBack,
            (t.answer now request).2.2.toRecencyList.entries.length,
            (t.answer now request).2.2.toRecencyList.capacity.value,
            (t.answer now request).2.2.toRecencyList.expirations⟩ ::
            (t.answer now request).2.2.toRecencyList.observations (request.next now) rest := by
        rw [announced_answer, hsize, hrest]
        rfl
      _ = t.toRecencyList.observations now (request :: rest) := by
        rw [hreply, htier]
        rfl

/-- From the start, a tier shows the same as one list of entries that is kept in the order of their
last touch. It replies as the list does, announces what the list hands back and nothing else, and
has its length, capacity and number of expired entries after every request. -/
theorem observed_as_recency_list (level : Level) (capacity : Capacity) (ttl : Nat) (now : Int)
    (requests : List (Request K V)) :
    (Tier.empty level capacity ttl).observations now requests =
      (RecencyList.empty capacity ttl).observations now requests :=
  (consistent_empty level capacity ttl).observations_eq now requests

end Tier

end TieredCache
