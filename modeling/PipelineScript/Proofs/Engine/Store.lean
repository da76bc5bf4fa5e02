import Mathlib
import PipelineScript.Proofs.Engine.History

/-! # The cache in two tables

The scripts of a cache and the times of their last use can also be kept apart, in two tables that
are written one after the other. Main statement: `Engine.store_consistent`. Whatever an engine is
asked to do, both tables have the same digests, every script is that of a text with its digest, and
hits and misses count the texts that were asked for. -/

namespace PipelineScript

namespace Table

variable {α β : Type} {t : Table α} {key : String} {a : α}

/-! ## Values of tables -/

def mapValues (f : α → β) (t : Table α) : Table β := t.map fun (key, a) => (key, f a)

variable (f : α → β)

@[simp] theorem keys_mapValues (t : Table α) : keys (mapValues f t) = keys t := by
  simp [keys, mapValues]

@[simp] theorem get?_mapValues (t : Table α) (key : String) :
    get? (mapValues f t) key = (get? t key).map f := by
  induction t with
  | nil => rfl
  | cons entry rest ih =>
    obtain ⟨k, v⟩ := entry
    show get? ((k, f v) :: mapValues f rest) key = _
    rw [get?, get?, ih]
    split <;> rfl

theorem mapValues_insert (t : Table α) (key : String) (a : α) :
    mapValues f (insert t key a) = insert (mapValues f t) key (f a) := by
  induction t with
  | nil => rfl
  | cons entry rest ih =>
    obtain ⟨k, v⟩ := entry
    show _ = insert ((k, f v) :: mapValues f rest) key (f a)
    unfold insert
    split
    · rfl
    · split
      · rfl
      · exact congrArg ((k, f v) :: ·) ih

theorem erase_eq_filter (t : Table α) (key : String) :
    erase t key = t.filter fun entry => entry.1 ≠ key := by
  induction t with
  | nil => rfl
  | cons entry rest ih =>
    obtain ⟨k, v⟩ := entry
    by_cases hk : k = key <;> simp [erase, hk, ih]

/-- What is there already may be put there again. -/
theorem Ordered.insert_of_get? (h : t.Ordered) (ha : get? t key = some a) :
    Table.insert t key a = t := by
  refine (h.insert key a).ext h fun other => ?_
  rw [get?_insert]
  split
  · rename_i hk
    rw [← hk, ha]
  · rfl

theorem Ordered.mapValues (h : t.Ordered) : Ordered (t.mapValues f) :=
  List.pairwise_map.mpr h

theorem Ordered.filter (h : t.Ordered) (p : String × α → Bool) : Ordered (t.filter p) :=
  h.sublist List.filter_sublist

theorem filter_mapValues (p : String → Bool) (t : Table α) :
    (t.mapValues f).filter (fun entry => p entry.1) =
      Table.mapValues f (t.filter fun entry => p entry.1) :=
  List.filter_map

end Table

/-- A cache in two tables, with counters of 64 bits. -/
structure Store where
  entries : Table Script
  /-- When the script of a digest was last asked for. -/
  lastAccess : Table Nat
  hits : UInt64
  misses : UInt64
  sweepInterval : Nat
  sweeping : Bool

namespace Store

/-! ## Operations -/

def empty (sweepInterval : Nat) : Store := ⟨[], [], 0, 0, sweepInterval, true⟩

/-- The time of use is noted last. A text that does not compile has counted as a miss by then. -/
def getOrCompile (s : Store) (now : Nat) (source : String) : Except Diagnostic Script × Store :=
  let hash := Digest.ofText source
  match Table.get? s.entries hash with
  | some script =>
    let s := { s with hits := s.hits + 1 }
    (.ok script, { s with lastAccess := Table.insert s.lastAccess hash now })
  | none =>
    let s := { s with misses := s.misses + 1 }
    match Script.compile source with
    | .error d => (.error d, s)
    | .ok script =>
      let s := { s with entries := Table.insert s.entries hash script }
      (.ok script, { s with lastAccess := Table.insert s.lastAccess hash now })

/-- A time that is still to come is not long ago. -/
def isIdle (now maxIdle used : Nat) : Bool := maxIdle < now - used

/-- One more digest is taken out of both tables, if its time is still long ago. -/
def dropIdle (now maxIdle : Nat) (dropped : Nat × Store) (hash : String) : Nat × Store :=
  let (count, s) := dropped
  match Table.get? s.lastAccess hash with
  | some used =>
    if isIdle now maxIdle used then
      (count + 1, { s with
        lastAccess := Table.erase s.lastAccess hash
        entries := Table.erase s.entries hash })
    else (count, s)
  | none => (count, s)

/-- First the digests are collected, then they are dropped one by one. -/
def evictIdle (s : Store) (now maxIdle : Nat) : Nat × Store :=
  let stale := Table.keys (s.lastAccess.filter fun entry => isIdle now maxIdle entry.2)
  stale.foldl (dropIdle now maxIdle) (0, s)

def sweptBy (s : Store) (now : Nat) : Store :=
  if s.sweeping then (s.evictIdle (now - now % s.sweepInterval) s.sweepInterval).2 else s

def shutdown (s : Store) : Store := { s with entries := [], lastAccess := [], sweeping := false }

variable {s : Store} {now maxIdle : Nat}

theorem noted_of_getOrCompile {source : String} {script : Script}
    (h : (s.getOrCompile now source).1 = .ok script) :
    Table.get? (s.getOrCompile now source).2.entries (Digest.ofText source) = some script ∧
    (s.getOrCompile now source).2.lastAccess =
      Table.insert s.lastAccess (Digest.ofText source) now := by
  unfold getOrCompile at h ⊢
  dsimp only at h ⊢
  split at h
  · rename_i found hfound
    cases h
    exact ⟨hfound, rfl⟩
  · split at h
    · cases h
    · cases h
      exact ⟨by rw [Table.get?_insert, if_pos rfl], rfl⟩

/-! ## Eviction -/

/-- The tables without some digests. -/
def without (s : Store) (hashes : List String) : Store :=
  { s with
    entries := s.entries.filter fun entry => entry.1 ∉ hashes
    lastAccess := s.lastAccess.filter fun entry => entry.1 ∉ hashes }

theorem without_nil (s : Store) : s.without [] = s := by
  simp [without]

theorem without_cons (s : Store) (hash : String) (hashes : List String) :
    Store.without { s with
        lastAccess := Table.erase s.lastAccess hash
        entries := Table.erase s.entries hash } hashes = s.without (hash :: hashes) := by
  simp [without, Table.erase_eq_filter, List.filter_filter, Bool.and_comm]

/-- Digests that differ do not get into each other's way. -/
theorem foldl_dropIdle {hashes : List String} (hdistinct : hashes.Nodup)
    (hidle : ∀ hash ∈ hashes, (Table.get? s.lastAccess hash).any (isIdle now maxIdle) = true)
    (count : Nat) : hashes.foldl (dropIdle now maxIdle) (count, s) =
      (count + hashes.length, s.without hashes) := by
  induction hashes generalizing s count with
  | nil => rw [without_nil]; rfl
  | cons hash hashes ih =>
    obtain ⟨hfresh, hdistinct⟩ := List.nodup_cons.mp hdistinct
    obtain ⟨hfirst, hrest⟩ := List.forall_mem_cons.mp hidle
    obtain ⟨used, hused, hlong⟩ := (Option.any_eq_true _ _).mp hfirst
    have hstep : dropIdle now maxIdle (count, s) hash = (count + 1, { s with
        lastAccess := Table.erase s.lastAccess hash
        entries := Table.erase s.entries hash }) := by
      simp only [dropIdle, hused, hlong, if_true]
    rw [List.foldl_cons, hstep, ih hdistinct ?_, without_cons, List.length_cons]
    · congr 1
      omega
    · intro other hother
      have hne : hash ≠ other := fun heq => hfresh (heq ▸ hother)
      rw [Table.get?_erase, if_neg hne]
      exact hrest other hother

/-- The script of the digest was last asked for longer ago than `maxIdle`. -/
def idle (s : Store) (now maxIdle : Nat) (hash : String) : Bool :=
  (Table.get? s.lastAccess hash).any fun used => used + maxIdle < now

theorem idle_of_mem (h : s.lastAccess.Ordered) {entry : String × Nat}
    (hentry : entry ∈ s.lastAccess) :
    s.idle now maxIdle entry.1 = isIdle now maxIdle entry.2 := by
  rw [idle, Table.get?_of_mem h.nodup_keys hentry, Option.any_some, isIdle, decide_eq_decide]
  omega

/-- Exactly the entries that are idle are dropped, from both tables, and counted. -/
theorem evictIdle_eq (h : s.lastAccess.Ordered)
    (hkeys : Table.keys s.entries = Table.keys s.lastAccess) (now maxIdle : Nat) :
    s.evictIdle now maxIdle =
      ((s.entries.filter fun entry => s.idle now maxIdle entry.1).length, { s with
        entries := s.entries.filter fun entry => !s.idle now maxIdle entry.1
        lastAccess := s.lastAccess.filter fun entry => !s.idle now maxIdle entry.1 }) := by
  have hstale : Table.keys (s.lastAccess.filter fun entry => isIdle now maxIdle entry.2) =
      (Table.keys s.lastAccess).filter (s.idle now maxIdle) := by
    rw [Table.keys, Table.keys, List.filter_map]
    exact congrArg _ (List.filter_congr fun entry hentry => (idle_of_mem h hentry).symm)
  have hgone {α : Type} {t : Table α} (ht : Table.keys t = Table.keys s.lastAccess) :
      (t.filter fun entry => entry.1 ∉ (Table.keys s.lastAccess).filter (s.idle now maxIdle)) =
        t.filter fun entry => !s.idle now maxIdle entry.1 := by
    refine List.filter_congr fun entry hentry => ?_
    have hmem : entry.1 ∈ Table.keys s.lastAccess := ht ▸ List.mem_map_of_mem hentry
    simp [hmem]
  have hstill : ∀ hash ∈ (Table.keys s.lastAccess).filter (s.idle now maxIdle),
      (Table.get? s.lastAccess hash).any (isIdle now maxIdle) = true := by
    intro hash hhash
    obtain ⟨hmem, hidle⟩ := List.mem_filter.mp hhash
    obtain ⟨entry, hentry, rfl⟩ := List.mem_map.mp hmem
    rw [idle_of_mem h hentry] at hidle
    rw [Table.get?_of_mem h.nodup_keys hentry]
    exact hidle
  have hcount : ((Table.keys s.lastAccess).filter (s.idle now maxIdle)).length =
      (s.entries.filter fun entry => s.idle now maxIdle entry.1).length := by
    rw [← hkeys, Table.keys, List.filter_map, List.length_map]
    rfl
  have hdistinct : (Table.keys s.lastAccess).Nodup := h.nodup_keys
  unfold evictIdle
  dsimp only
  rw [hstale, foldl_dropIdle (hdistinct.filter _) hstill, Nat.zero_add, hcount, without,
    hgone hkeys, hgone rfl]

end Store

/-! ## The cache and its tables -/

/-- What the two tables hold when a cache has an entry for each digest. -/
def Cache.store (c : Cache) : Store where
  entries := c.entries.mapValues CachedScript.script
  lastAccess := c.entries.mapValues CachedScript.lastUse
  hits := .ofNat c.hits
  misses := .ofNat c.misses
  sweepInterval := c.sweepInterval
  sweeping := c.sweeping

namespace Cache

variable {c : Cache}

theorem ordered_getOrCompile (h : c.entries.Ordered) (now : Nat) (source : String) :
    (c.getOrCompile now source).2.entries.Ordered := by
  unfold getOrCompile
  dsimp only
  split
  · exact h.insert _ _
  · split
    · exact h.insert _ _
    · exact h

theorem ordered_evictIdle (h : c.entries.Ordered) (now maxIdle : Nat) :
    (c.evictIdle now maxIdle).2.entries.Ordered := h.filter _

/-- The tables follow the cache, however a text is answered. -/
theorem store_getOrCompile (h : c.entries.Ordered) (now : Nat) (source : String) :
    c.store.getOrCompile now source =
      ((c.getOrCompile now source).1, (c.getOrCompile now source).2.store) := by
  unfold Store.getOrCompile getOrCompile store
  dsimp only
  rw [Table.get?_mapValues]
  cases hentry : Table.get? c.entries (Digest.ofText source) with
  | some entry =>
    have hfound := Table.get?_mapValues CachedScript.script c.entries (Digest.ofText source)
    rw [hentry] at hfound
    have hsame := (h.mapValues CachedScript.script).insert_of_get? hfound
    simp only [Option.map_some, Table.mapValues_insert, hsame, UInt64.ofNat_add]
    rfl
  | none =>
    cases Script.compile source with
    | error d => simp only [Option.map_none, UInt64.ofNat_add]; rfl
    | ok script => simp only [Option.map_none, Table.mapValues_insert, UInt64.ofNat_add]; rfl

theorem keys_store (c : Cache) : Table.keys c.store.entries = Table.keys c.store.lastAccess :=
  (Table.keys_mapValues _ _).trans (Table.keys_mapValues _ _).symm

theorem store_evictIdle (h : c.entries.Ordered) (now maxIdle : Nat) :
    c.store.evictIdle now maxIdle =
      ((c.evictIdle now maxIdle).1, (c.evictIdle now maxIdle).2.store) := by
  have hidle : ∀ entry ∈ c.entries,
      c.store.idle now maxIdle entry.1 = !decide (now - entry.2.lastUse ≤ maxIdle) := by
    intro entry hentry
    have hmem : (entry.1, entry.2.lastUse) ∈ c.store.lastAccess :=
      List.mem_map.mpr ⟨entry, hentry, rfl⟩
    rw [Store.idle_of_mem (h.mapValues _) hmem, Store.isIdle, ← decide_not, decide_eq_decide]
    omega
  have hkept : (c.entries.filter fun entry => !c.store.idle now maxIdle entry.1) =
      c.entries.filter fun entry => decide (now - entry.2.lastUse ≤ maxIdle) :=
    List.filter_congr fun entry hentry => by rw [hidle entry hentry, Bool.not_not]
  have hcount : (c.entries.filter fun entry => c.store.idle now maxIdle entry.1).length =
      c.entries.length - (c.entries.filter fun entry =>
        decide (now - entry.2.lastUse ≤ maxIdle)).length := by
    have hsplit := List.length_eq_length_filter_add (l := c.entries)
      fun entry => c.store.idle now maxIdle entry.1
    rw [hkept] at hsplit
    omega
  have htable {β : Type} (f : CachedScript → β) :
      ((c.entries.mapValues f).filter fun entry => !c.store.idle now maxIdle entry.1) =
        Table.mapValues f (c.entries.filter fun entry =>
          decide (now - entry.2.lastUse ≤ maxIdle)) := by
    rw [← hkept]
    exact Table.filter_mapValues f (fun key => !c.store.idle now maxIdle key) c.entries
  have hdropped : ((c.entries.mapValues CachedScript.script).filter fun entry =>
      c.store.idle now maxIdle entry.1).length = (c.evictIdle now maxIdle).1 := by
    rw [Table.filter_mapValues _ (c.store.idle now maxIdle), Table.mapValues, List.length_map]
    exact hcount
  have hleft : (c.evictIdle now maxIdle).2.store = { c.store with
      entries := (c.entries.mapValues CachedScript.script).filter fun entry =>
        !c.store.idle now maxIdle entry.1
      lastAccess := (c.entries.mapValues CachedScript.lastUse).filter fun entry =>
        !c.store.idle now maxIdle entry.1 } := by
    rw [htable, htable]
    rfl
  rw [Store.evictIdle_eq (h.mapValues _) (keys_store c), hleft, ← hdropped]
  rfl

end Cache

/-- What is done with an engine from outside, and time that passes. -/
inductive Operation where
  | request (r : Request)
  /-- Drops what is idle at any time, past or to come. -/
  | evict (now maxIdle : Nat)
  | wait (nanos : Nat)

namespace Operation

/-- How many texts are asked for through the cache. -/
def lookUps : Operation → Nat
  | request (.compile _) | request (.run _ _ _) => 1
  | _ => 0

end Operation

/-- What the two tables of an engine do meanwhile. They are swept when a run has ended. -/
def Store.follow (s : Store) (e : Engine) : Operation → Store
  | .request (.compile source) => (s.getOrCompile (e.clock + Run.tick) source).2
  | .request (.run source host echoes) =>
    match s.getOrCompile (e.clock + Run.tick) source with
    | (.ok _, s) => s.sweptBy (e.run source host echoes).2.clock
    | (.error _, s) => s
  | .request (.runRegistered name host echoes) =>
    match e.registry.get name with
    | .ok _ => s.sweptBy (e.runRegistered name host echoes).2.clock
    | .error _ => s
  | .request (.execute nodes host echoes) => s.sweptBy (e.execute nodes host echoes).2.clock
  | .request (.evictIdle after maxIdle) => (s.evictIdle (e.clock + Run.tick + after) maxIdle).2
  | .request .shutdown => s.shutdown
  | .request _ => s
  | .evict now maxIdle => (s.evictIdle now maxIdle).2
  | .wait nanos => s.sweptBy (e.clock + nanos)

namespace Engine

def operate (e : Engine) : Operation → Engine
  | .request r => e.serve r
  | .evict now maxIdle => { e with cache := (e.cache.evictIdle now maxIdle).2 }
  | .wait nanos => { e with cache := e.cache.sweptBy (e.clock + nanos), clock := e.clock + nanos }

/-- The engine after the operations, and the two tables. -/
def operateAll (e : Engine) (s : Store) : List Operation → Engine × Store
  | [] => (e, s)
  | op :: rest => (e.operate op).operateAll (s.follow e op) rest

end Engine

/-! ## What is kept -/

/-- The cache is what the two tables hold, and so many texts were asked for. -/
structure Cache.Keeps (c : Cache) (s : Store) (lookUps : Nat) : Prop where
  store : c.store = s
  ordered : c.entries.Ordered
  compiled : ∀ entry ∈ c.entries, ∃ text, entry.1 = Digest.ofText text ∧
    Script.compile text = .ok entry.2.script
  counted : c.hits + c.misses = lookUps

namespace Cache.Keeps

variable {c : Cache} {s : Store} {n : Nat}

theorem empty (sweepInterval : Nat) : (Cache.empty sweepInterval).Keeps (.empty sweepInterval) 0 :=
  ⟨rfl, .nil, List.forall_mem_nil _, rfl⟩

/-- Both answer a text alike, and count it. -/
theorem getOrCompile (h : c.Keeps s n) (now : Nat) (source : String) :
    (c.getOrCompile now source).1 = (s.getOrCompile now source).1 ∧
      (c.getOrCompile now source).2.Keeps (s.getOrCompile now source).2 (n + 1) := by
  have hstore := Cache.store_getOrCompile h.ordered now source
  rw [h.store] at hstore
  refine ⟨(congrArg Prod.fst hstore).symm, (congrArg Prod.snd hstore).symm,
    Cache.ordered_getOrCompile h.ordered now source, ?_, ?_⟩
  · unfold Cache.getOrCompile
    dsimp only
    cases hfound : Table.get? c.entries (Digest.ofText source) with
    | some entry =>
      intro other ho
      obtain rfl | ho := Table.eq_or_mem_of_mem_insert ho
      · obtain ⟨text, hhash, hcompile⟩ := h.compiled _ (Table.mem_of_get? hfound)
        exact ⟨text, hhash, hcompile⟩
      · exact h.compiled other ho
    | none =>
      cases hcompile : Script.compile source with
      | error d => exact h.compiled
      | ok script =>
        intro other ho
        obtain rfl | ho := Table.eq_or_mem_of_mem_insert ho
        · exact ⟨source, rfl, hcompile⟩
        · exact h.compiled other ho
  · have hcounted := h.counted
    unfold Cache.getOrCompile
    dsimp only
    split
    · dsimp only; omega
    · split <;> dsimp only <;> omega

theorem evictIdle (h : c.Keeps s n) (now maxIdle : Nat) :
    (c.evictIdle now maxIdle).2.Keeps (s.evictIdle now maxIdle).2 n := by
  have hstore := Cache.store_evictIdle h.ordered now maxIdle
  rw [h.store] at hstore
  exact ⟨(congrArg Prod.snd hstore).symm, Cache.ordered_evictIdle h.ordered now maxIdle,
    fun entry he => h.compiled entry (List.mem_filter.mp he).1, h.counted⟩

theorem sweptBy (h : c.Keeps s n) (now : Nat) : (c.sweptBy now).Keeps (s.sweptBy now) n := by
  have hswept : s.sweeping = c.sweeping ∧ s.sweepInterval = c.sweepInterval := by
    rw [← h.store]
    exact ⟨rfl, rfl⟩
  unfold Cache.sweptBy Store.sweptBy
  rw [hswept.1, hswept.2]
  split
  · exact h.evictIdle _ _
  · exact h

theorem shutdown (h : c.Keeps s n) : c.shutdown.Keeps s.shutdown n :=
  ⟨by rw [← h.store]; rfl, .nil, List.forall_mem_nil _, h.counted⟩

end Cache.Keeps

namespace Engine

variable {e : Engine} {s : Store} {n : Nat}

theorem cache_run (e : Engine) (source : String) (host : HostValues) (echoes : Bool) :
    (e.run source host echoes).2.cache =
      match e.cache.getOrCompile (e.clock + Run.tick) source with
      | (.ok _, c) => c.sweptBy (e.run source host echoes).2.clock
      | (.error _, c) => c := by
  unfold run compile
  dsimp only
  rcases e.cache.getOrCompile (e.clock + Run.tick) source with ⟨d | script, c⟩ <;> rfl

theorem cache_runRegistered (e : Engine) (name : String) (host : HostValues) (echoes : Bool) :
    (e.runRegistered name host echoes).2.cache =
      match e.registry.get name with
      | .ok _ => e.cache.sweptBy (e.runRegistered name host echoes).2.clock
      | .error _ => e.cache := by
  unfold runRegistered
  cases e.registry.get name <;> rfl

theorem cache_register (e : Engine) (name source : String) :
    (e.register name source).2.cache = e.cache := by
  unfold register
  cases e.registry.register name source <;> rfl

theorem cache_remove (e : Engine) (name : String) : (e.remove name).2.cache = e.cache := by
  unfold remove
  cases e.registry.remove name <;> rfl

/-- Whatever is done with an engine, the tables follow its cache. -/
theorem keeps_operate (h : e.cache.Keeps s n) (op : Operation) :
    (e.operate op).cache.Keeps (s.follow e op) (n + op.lookUps) := by
  cases op with
  | evict now maxIdle => exact h.evictIdle now maxIdle
  | wait nanos => exact h.sweptBy _
  | request r =>
    cases r with
    | compile source => exact (h.getOrCompile _ source).2
    | run source host echoes =>
      obtain ⟨hanswer, hkeeps⟩ := h.getOrCompile (e.clock + Run.tick) source
      show (e.run source host echoes).2.cache.Keeps _ (n + 1)
      rw [cache_run, Store.follow]
      generalize e.cache.getOrCompile (e.clock + Run.tick) source = answer at hanswer hkeeps
      generalize s.getOrCompile (e.clock + Run.tick) source = answer' at hanswer hkeeps
      obtain ⟨result, c⟩ := answer
      obtain ⟨result', s'⟩ := answer'
      obtain rfl : result = result' := hanswer
      cases result with
      | ok script => exact hkeeps.sweptBy _
      | error d => exact hkeeps
    | runRegistered name host echoes =>
      show (e.runRegistered name host echoes).2.cache.Keeps _ n
      rw [cache_runRegistered, Store.follow]
      cases e.registry.get name with
      | ok script => exact h.sweptBy _
      | error fault => exact h
    | execute nodes host echoes => exact h.sweptBy _
    | register name source => exact (cache_register e name source).symm ▸ h
    | remove name => exact (cache_remove e name).symm ▸ h
    | clearRegistry => exact h
    | evictIdle after maxIdle => exact h.evictIdle _ _
    | resetMonitor => exact h
    | shutdown => exact h.shutdown

theorem keeps_operateAll (h : e.cache.Keeps s n) (ops : List Operation) :
    (e.operateAll s ops).1.cache.Keeps (e.operateAll s ops).2
      (n + (ops.map Operation.lookUps).sum) := by
  induction ops generalizing e s n with
  | nil => exact h
  | cons op rest ih =>
    rw [List.map_cons, List.sum_cons, ← Nat.add_assoc]
    exact ih (keeps_operate h op)

end Engine

/-! ## Main statement -/

/-- Both tables have the same digests, each of them once, and every script passes the checks. -/
structure Store.Consistent (s : Store) : Prop where
  keys : Table.keys s.entries = Table.keys s.lastAccess
  distinct : (Table.keys s.entries).Nodup
  compiled : ∀ entry ∈ s.entries, ∃ text, entry.1 = Digest.ofText text ∧
    Script.compile text = .ok entry.2 ∧ Finding.check entry.2.statements = .ok ()

theorem Cache.Keeps.consistent {c : Cache} {s : Store} {n : Nat} (h : c.Keeps s n) :
    s.Consistent := by
  obtain ⟨rfl, hordered, hcompiled, -⟩ := h
  refine ⟨Cache.keys_store c, (hordered.mapValues _).nodup_keys, fun entry hentry => ?_⟩
  obtain ⟨cached, hcached, rfl⟩ := List.mem_map.mp hentry
  obtain ⟨text, hhash, hcompile⟩ := hcompiled cached hcached
  exact ⟨text, hhash, hcompile, (Script.compile_eq_ok_iff.mp hcompile).2.1⟩

/-- What the next operation on an engine may change. -/
structure Engine.Sparing (e : Engine) (s : Store) : Prop where
  /-- A text that is answered is kept, and was last used just now. -/
  noted : ∀ source script, (e.compile source).1 = .ok script →
    let s' := s.follow e (.request (.compile source))
    Table.get? s'.entries (Digest.ofText source) = some script ∧
    ∀ hash, Table.get? s'.lastAccess hash =
      if Digest.ofText source = hash then some (e.clock + Run.tick)
      else Table.get? s.lastAccess hash
  /-- A text that does not compile is counted, and nothing else. -/
  compile : ∀ source d, (e.compile source).1 = .error d →
    (e.compile source).2 = { e with
      cache := { e.cache with misses := e.cache.misses + 1 }
      clock := e.clock + Run.tick } ∧
    s.follow e (.request (.compile source)) = { s with misses := s.misses + 1 }
  run : ∀ source host echoes d, (e.compile source).1 = .error d →
    e.run source host echoes = (⟨.error (.script d), []⟩, (e.compile source).2) ∧
    s.follow e (.request (.run source host echoes)) = { s with misses := s.misses + 1 }
  register : ∀ name source fault, (e.register name source).1 = .error fault →
    (e.register name source).2 = e
  remove : ∀ name fault, (e.remove name).1 = .error fault → (e.remove name).2 = e
  get : ∀ name host echoes fault, e.registry.get name = .error fault →
    e.runRegistered name host echoes = (⟨.error (.registry fault), []⟩, e)
  /-- Exactly what was last used so long ago is dropped and counted. -/
  evict : ∀ now maxIdle, s.evictIdle now maxIdle =
    ((s.entries.filter fun entry => s.idle now maxIdle entry.1).length, { s with
      entries := s.entries.filter fun entry => !s.idle now maxIdle entry.1
      lastAccess := s.lastAccess.filter fun entry => !s.idle now maxIdle entry.1 }) ∧
    (e.cache.evictIdle now maxIdle).1 = (s.evictIdle now maxIdle).1
  /-- Nothing is left, and there is nothing to do a second time. -/
  shutdown : e.shutdown.cache.store = s.shutdown ∧ s.shutdown.entries = [] ∧
    s.shutdown.lastAccess = [] ∧ e.shutdown.registry = [] ∧ e.shutdown.memo.trees = [] ∧
    e.shutdown.shutdown = e.shutdown ∧ s.shutdown.shutdown = s.shutdown

namespace Engine

variable {e : Engine} {s : Store} {n : Nat}

theorem misses_of_compile_error {source : String} {d : Diagnostic}
    (h : (e.compile source).1 = .error d) :
    e.cache.getOrCompile (e.clock + Run.tick) source =
      (.error d, { e.cache with misses := e.cache.misses + 1 }) := by
  have hanswer : (e.cache.getOrCompile (e.clock + Run.tick) source).1 = .error d := h
  unfold Cache.getOrCompile at hanswer ⊢
  dsimp only at hanswer ⊢
  split at hanswer
  · cases hanswer
  · split at hanswer
    · cases hanswer
    · cases hanswer
      rfl

theorem miss_of_compile_error (h : e.cache.Keeps s n) {source : String} {d : Diagnostic}
    (hd : (e.compile source).1 = .error d) :
    s.getOrCompile (e.clock + Run.tick) source = (.error d, { s with misses := s.misses + 1 }) := by
  have hstore := Cache.store_getOrCompile h.ordered (e.clock + Run.tick) source
  rw [misses_of_compile_error hd] at hstore
  rw [← h.store, hstore, Cache.store, UInt64.ofNat_add]
  rfl

theorem sparing_of_keeps (h : e.cache.Keeps s n) : e.Sparing s where
  noted source script hscript := by
    have hanswer : (s.getOrCompile (e.clock + Run.tick) source).1 = .ok script :=
      (h.getOrCompile _ source).1.symm.trans hscript
    obtain ⟨hentry, haccess⟩ := Store.noted_of_getOrCompile hanswer
    refine ⟨hentry, fun hash => ?_⟩
    rw [Store.follow, haccess, Table.get?_insert]
  compile source d hd := by
    refine ⟨by rw [Engine.compile, misses_of_compile_error hd], ?_⟩
    rw [Store.follow, miss_of_compile_error h hd]
  run source host echoes d hd := by
    refine ⟨?_, by rw [Store.follow, miss_of_compile_error h hd]⟩
    rw [Engine.run, Engine.compile, misses_of_compile_error hd]
  register name source fault hfault := by
    unfold Engine.register at hfault ⊢
    cases hreply : e.registry.register name source with
    | ok reply => rw [hreply] at hfault; cases hfault
    | error other => rfl
  remove name fault hfault := by
    unfold Engine.remove at hfault ⊢
    cases hreply : e.registry.remove name with
    | ok reply => rw [hreply] at hfault; cases hfault
    | error other => rfl
  get name host echoes fault hfault := by rw [runRegistered, hfault]
  evict now maxIdle := by
    have hstore := Cache.store_evictIdle h.ordered now maxIdle
    rw [h.store] at hstore
    refine ⟨Store.evictIdle_eq ?_ h.consistent.keys now maxIdle, (congrArg Prod.fst hstore).symm⟩
    rw [← h.store]
    exact h.ordered.mapValues _
  shutdown := ⟨by rw [← h.store]; rfl, rfl, rfl, rfl, rfl, rfl, rfl⟩

/-- Whatever is done with an engine that was just built, in whatever order, its cache is what the two
tables hold, these are consistent, and every text that was asked for is a hit or a miss. -/
theorem store_consistent {settings : Settings} {tasks : Tasks} {environment : Table String}
    {startedAt : Instant} {e₀ : Engine}
    (hbuild : build settings tasks environment startedAt = .ok e₀) (ops : List Operation) :
    let (e, s) := e₀.operateAll (.empty e₀.cache.sweepInterval) ops
    let lookUps := (ops.map Operation.lookUps).sum
    e.cache.store = s ∧ s.Consistent ∧ e.cache.hits + e.cache.misses = lookUps ∧
      s.hits + s.misses = .ofNat lookUps ∧ e.Sparing s := by
  have hempty : e₀.cache.Keeps (.empty e₀.cache.sweepInterval) 0 := by
    unfold build at hbuild
    dsimp only at hbuild
    split at hbuild
    · cases hbuild
    · cases hbuild
      exact .empty _
  have hkeeps := keeps_operateAll hempty ops
  rw [Nat.zero_add] at hkeeps
  refine ⟨hkeeps.store, hkeeps.consistent, hkeeps.counted, ?_, sparing_of_keeps hkeeps⟩
  rw [← hkeeps.store, ← hkeeps.counted, UInt64.ofNat_add]
  rfl

/-- A script that is kept, a text that does not compile, and a name that is taken. -/
theorem store_consistent_failures :
    let settings : Settings := ⟨0, false, 3600, 1, []⟩
    let ops : List Operation := [.request (.compile "export 1"), .request (.run "export" [] true),
      .request (.register "one" "export 1"), .wait 7200000000000, .evict 0 0,
      .request (.register "one" "echo 2"), .request (.compile "export 1"), .request .shutdown]
    ∃ e₀, build settings [] [] ⟨0, 0⟩ = .ok e₀ ∧
      let (e, s) := e₀.operateAll (.empty e₀.cache.sweepInterval) ops
      e.cache.store = s ∧ s.Consistent ∧ e.cache.hits + e.cache.misses = 3 ∧
        s.hits + s.misses = 3 ∧ e.Sparing s := by
  intro settings ops
  obtain ⟨e₀, hbuild⟩ : ∃ e₀, build settings [] [] ⟨0, 0⟩ = .ok e₀ := ⟨_, rfl⟩
  exact ⟨e₀, hbuild, store_consistent hbuild ops⟩

end Engine

end PipelineScript
