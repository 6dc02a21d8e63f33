import CodeCub.Machine.Run
import CodeCub.Python.Json
import CodeCub.Python.OrderedDict

/-!
# The vectors of the code chunks

`codecub/vector_index.py`: a refresh embeds the chunks whose content hash is new and the
ones without a vector.  The record of a chunk, with its hash, is replaced before the
chunk is embedded, and vectors come from a cache whose key names the model.
-/

namespace CodeCub
namespace Index

open Python

structure CodeChunk where
  chunkId : Str
  path : Str
  startLine : Nat
  endLine : Nat
  symbol : Str
  contentHash : Str
  text : Str
  deriving DecidableEq

/-- `hashlib.sha256(text.encode()).hexdigest()`, no two texts with the same digest. -/
structure Sha256 where
  hexdigest : Str → Str
  injective : Function.Injective hexdigest

/-- `LocalJsonCache.key(*parts)`. -/
def Sha256.key (sha : Sha256) (parts : List Str) : Str :=
  sha.hexdigest ([Char.ofNat 0x1f].intercalate parts)

def embeddingCacheKey (sha : Sha256) (model text : Str) : Str :=
  sha.key ["embedding".toList, model, sha.hexdigest text]

theorem embeddingCacheKey_injective (sha : Sha256) (model : Str) :
    Function.Injective (embeddingCacheKey sha model) := by
  intro text text' h
  have hparts := sha.injective h
  simp only [List.intercalate, List.intersperse, List.flatten_cons, List.flatten_nil,
    List.append_nil, List.append_cancel_left_eq] at hparts
  exact sha.injective hparts

variable {V : Type}

/-- An embedding service: the name of its model, and its vectors. -/
structure EmbeddingClient (V : Type) where
  model : Str
  embed : Str → V

/-- Where the embedding of a chunk fails: in the call, or in writing the cache file, which
may leave a torn file behind. -/
inductive EmbedFailure where
  | call
  | cacheFile (torn : Bool)

/-- One call of `refresh`: the chunks of the workspace with the hashes of their texts, and
the chunks whose embedding fails. -/
structure Refresh (sha : Sha256) (V : Type) where
  client : EmbeddingClient V
  chunks : List CodeChunk
  hashed : ∀ chunk ∈ chunks, chunk.contentHash = sha.hexdigest chunk.text
  fails : Str → Option EmbedFailure := fun _ => none

/-- The index in memory, and its three files. -/
structure VectorIndex (V : Type) where
  records : OrderedDict Str CodeChunk := ∅
  vectors : OrderedDict Str V := ∅
  cache : OrderedDict Str V := ∅
  chunkFile : OrderedDict Str CodeChunk := ∅
  vectorFile : OrderedDict Str V := ∅
  cacheFile : OrderedDict Str V := ∅

/-! ## Refreshing -/

/-- `{item.chunk_id: item for item in chunks}`. -/
def byId (chunks : List CodeChunk) : OrderedDict Str CodeChunk :=
  OrderedDict.ofEntries (chunks.map fun chunk => (chunk.chunkId, chunk))

/-- The chunks that are gone lose their record and their vector. -/
def dropGone (chunks : OrderedDict Str CodeChunk) (s : VectorIndex V) : VectorIndex V :=
  (s.records.keys.filter fun ident => (chunks.get ident).isNone).foldl
    (fun s ident => { s with records := s.records.pop ident, vectors := s.vectors.pop ident }) s

/-- The chunk has a new hash or no vector. -/
def stale (s : VectorIndex V) (ident : Str) (chunk : CodeChunk) : Bool :=
  (s.records.get ident).map CodeChunk.contentHash ≠ some chunk.contentHash ||
    (s.vectors.get ident).isNone

/-- The first loop: every record is replaced, the stale chunks are pending. -/
def recordChunks (chunks : OrderedDict Str CodeChunk) (s : VectorIndex V) :
    VectorIndex V × List (Str × CodeChunk) :=
  ({ s with records := chunks.entries.foldl (fun d item => d.set item.1 item.2) s.records },
    chunks.entries.filter fun item => stale s item.1 item.2)

/-- `chunk.text[:2000]`. -/
def CodeChunk.head (chunk : CodeChunk) : Str := chunk.text.take 2000

/-- The second loop on one chunk, and whether it was embedded. -/
def embedChunk {sha : Sha256} (r : Refresh sha V) (s : VectorIndex V) (item : Str × CodeChunk) :
    VectorIndex V × Bool :=
  let text := item.2.head
  let key := embeddingCacheKey sha r.client.model text
  match s.cache.get key with
  | some vector => ({ s with vectors := s.vectors.set item.1 vector }, true)
  | none =>
      let vector := r.client.embed text
      match r.fails item.1 with
      | some .call => (s, false)
      | some (.cacheFile torn) =>
          -- A file that does not parse is loaded as the empty cache.
          let cacheFile := if torn then ∅ else s.cacheFile
          ({ s with cache := s.cache.set key vector, cacheFile := cacheFile }, false)
      | none =>
          let cache := s.cache.set key vector
          ({ s with cache := cache, cacheFile := cache, vectors := s.vectors.set item.1 vector }, true)

/-- `_save`. -/
def save (s : VectorIndex V) : VectorIndex V := { s with chunkFile := s.records, vectorFile := s.vectors }

/-- The second loop, with the number of chunks embedded. -/
def embedAll {sha : Sha256} (r : Refresh sha V) :
    VectorIndex V × Nat → List (Str × CodeChunk) → VectorIndex V × Nat
  | done, [] => done
  | (s, embedded), item :: pending =>
      let result := embedChunk r s item
      embedAll r (save result.1, if result.2 then embedded + 1 else embedded) pending

/-- `refresh`, with the counts it returns. -/
def refresh {sha : Sha256} (r : Refresh sha V) (s : VectorIndex V) : VectorIndex V × (Nat × Nat) :=
  let chunks := byId r.chunks
  let recorded := recordChunks chunks (dropGone chunks s)
  let result := embedAll r (recorded.1, 0) recorded.2
  (save result.1, (result.1.records.keys.length, result.2))

/-- A new `LocalVectorIndex` over the same files. -/
def reopen (s : VectorIndex V) : VectorIndex V :=
  { s with records := s.chunkFile, vectors := s.vectorFile, cache := s.cacheFile }

inductive IndexStep (sha : Sha256) (V : Type) where
  | refresh (r : Refresh sha V)
  | reopen

def vectorIndex (sha : Sha256) : Machine (VectorIndex V) (IndexStep sha V) (Option (Nat × Nat)) where
  step s
    | .refresh r => ((refresh r s).1, some (refresh r s).2)
    | .reopen => (reopen s, none)

/-! ## Vectors that belong to their chunks -/

/-- Every vector is the client's embedding of its record. -/
def Belongs (client : EmbeddingClient V) (s : VectorIndex V) : Prop :=
  ∀ ident vector, s.vectors.get ident = some vector →
    ∃ chunk, s.records.get ident = some chunk ∧ vector = client.embed chunk.head

/-- The client computes what is kept of the index and what is taken from the cache, and where
an embedding fails the vector that stays is the one the chunk would get. -/
structure Fits {sha : Sha256} (s : VectorIndex V) (r : Refresh sha V) : Prop where
  kept : ∀ ident old chunk vector, s.records.get ident = some old →
    (byId r.chunks).get ident = some chunk → old.contentHash = chunk.contentHash →
    s.vectors.get ident = some vector → vector = r.client.embed old.head
  cached : ∀ ident chunk vector, (byId r.chunks).get ident = some chunk → stale s ident chunk →
    s.cache.get (embeddingCacheKey sha r.client.model chunk.head) = some vector →
    vector = r.client.embed chunk.head
  failed : ∀ ident chunk vector, (byId r.chunks).get ident = some chunk → stale s ident chunk →
    s.cache.get (embeddingCacheKey sha r.client.model chunk.head) = none → r.fails ident ≠ none →
    s.vectors.get ident = some vector → vector = r.client.embed chunk.head

def StepFits {sha : Sha256} (s : VectorIndex V) : IndexStep sha V → Prop
  | .refresh r => Fits s r
  | .reopen => True

/-! ## One refresh -/

section Refresh

variable {sha : Sha256} {r : Refresh sha V} {s : VectorIndex V}

theorem mem_of_byId {chunks : List CodeChunk} {ident : Str} {chunk : CodeChunk}
    (h : (byId chunks).get ident = some chunk) : chunk ∈ chunks := by
  rcases OrderedDict.get_foldl_set h with hmem | hnone
  · obtain ⟨other, hother, hpair⟩ := List.mem_map.mp hmem
    cases hpair
    exact hother
  · cases hnone

/-- What is left of the index when some chunks are dropped. -/
theorem get_drop (idents : List Str) (s : VectorIndex V) :
    let t := idents.foldl
      (fun s ident => { s with records := s.records.pop ident, vectors := s.vectors.pop ident }) s
    (∀ ident, t.records.get ident = if ident ∈ idents then none else s.records.get ident) ∧
      (∀ ident, t.vectors.get ident = if ident ∈ idents then none else s.vectors.get ident) ∧
      t.cache = s.cache := by
  induction idents generalizing s with
  | nil => exact ⟨fun _ => rfl, fun _ => rfl, rfl⟩
  | cons first rest ih =>
      obtain ⟨hrecords, hvectors, hcache⟩ :=
        ih { s with records := s.records.pop first, vectors := s.vectors.pop first }
      have hpop : ∀ {β : Type} (d : OrderedDict Str β) (ident : Str),
          (if ident ∈ rest then none else (d.pop first).get ident) =
            if ident ∈ first :: rest then none else d.get ident := by
        intro β d ident
        rw [OrderedDict.get_pop]
        by_cases hfirst : ident = first
        · simp [hfirst]
        · simp [hfirst]
      exact ⟨fun ident => (hrecords ident).trans (hpop _ ident),
        fun ident => (hvectors ident).trans (hpop _ ident), hcache⟩

/-- What holds between two calls: every vector has a record, the records carry the hashes
of their texts, and the files agree with the memory. -/
structure Sane (sha : Sha256) (s : VectorIndex V) : Prop where
  keyed : ∀ ident vector, s.vectors.get ident = some vector → (s.records.get ident).isSome
  hashed : ∀ ident chunk, s.records.get ident = some chunk →
    chunk.contentHash = sha.hexdigest chunk.text
  chunkFile : s.chunkFile = s.records
  vectorFile : s.vectorFile = s.vectors

theorem mem_gone {chunks : OrderedDict Str CodeChunk} {ident : Str} {old : CodeChunk}
    (hold : s.records.get ident = some old) :
    ident ∈ s.records.keys.filter (fun ident => (chunks.get ident).isNone) ↔
      chunks.get ident = none := by
  rw [List.mem_filter, Option.isNone_iff_eq_none]
  exact and_iff_right (List.mem_map_of_mem (f := Prod.fst) (s.records.mem_of_get hold))

/-- After the first loop the records are the chunks, and a vector is one of before, of a
chunk that is still there. -/
theorem recordChunks_spec (hsane : Sane sha s) (chunks : OrderedDict Str CodeChunk) :
    let t := (recordChunks chunks (dropGone chunks s)).1
    (∀ ident, t.records.get ident = chunks.get ident) ∧
      (∀ ident vector, t.vectors.get ident = some vector →
        s.vectors.get ident = some vector ∧ (chunks.get ident).isSome) ∧
      t.cache = s.cache := by
  obtain ⟨hrecords, hvectors, hcache⟩ :=
    get_drop (s.records.keys.filter fun ident => (chunks.get ident).isNone) s
  refine ⟨?_, ?_, hcache⟩
  · intro ident
    show (chunks.entries.foldl (fun d item => d.set item.1 item.2) (dropGone chunks s).records).get
      ident = _
    rw [OrderedDict.get_update]
    cases hchunk : chunks.get ident with
    | some chunk => rfl
    | none =>
        show (dropGone chunks s).records.get ident = none
        rw [dropGone, hrecords]
        split
        · rfl
        · next hkept =>
            cases hold : s.records.get ident with
            | none => rfl
            | some old => exact absurd ((mem_gone hold).mpr hchunk) hkept
  · intro ident vector hvector
    have hold : (if ident ∈ s.records.keys.filter (fun ident => (chunks.get ident).isNone) then none
        else s.vectors.get ident) = some vector := (hvectors ident).symm.trans hvector
    split at hold
    · cases hold
    · next hkept =>
        refine ⟨hold, ?_⟩
        obtain ⟨old, hrecord⟩ := Option.isSome_iff_exists.mp (hsane.keyed ident vector hold)
        rw [mem_gone hrecord] at hkept
        exact Option.isSome_iff_ne_none.mpr hkept

/-- A chunk that is still there is as stale as it was. -/
theorem stale_dropGone {chunks : OrderedDict Str CodeChunk} {ident : Str} {chunk : CodeChunk}
    (hchunk : chunks.get ident = some chunk) :
    stale (dropGone chunks s) ident chunk = stale s ident chunk := by
  obtain ⟨hrecords, hvectors, _⟩ :=
    get_drop (s.records.keys.filter fun ident => (chunks.get ident).isNone) s
  have hkept : ident ∉ s.records.keys.filter fun ident => (chunks.get ident).isNone := by
    rw [List.mem_filter, hchunk]
    exact fun h => Bool.false_ne_true h.2
  rw [stale, stale, dropGone, hrecords, hvectors, if_neg hkept, if_neg hkept]

/-- What the cache holds for a text is the client's embedding, and nothing was removed. -/
def CacheFits (r : Refresh sha V) (before cache : OrderedDict Str V) (text : Str) : Prop :=
  (∀ vector, cache.get (embeddingCacheKey sha r.client.model text) = some vector →
    vector = r.client.embed text) ∧
  (cache.get (embeddingCacheKey sha r.client.model text) = none →
    before.get (embeddingCacheKey sha r.client.model text) = none)

theorem CacheFits.set {before cache : OrderedDict Str V} {text : Str}
    (h : CacheFits r before cache text) (other : Str) :
    CacheFits r before
      (cache.set (embeddingCacheKey sha r.client.model other) (r.client.embed other)) text := by
  constructor
  · intro vector hget
    rw [OrderedDict.get_set] at hget
    split at hget
    · next hkey =>
        cases hget
        rw [embeddingCacheKey_injective sha r.client.model hkey]
    · exact h.1 vector hget
  · intro hget
    rw [OrderedDict.get_set] at hget
    split at hget
    · cases hget
    · exact h.2 hget

/-- In the second loop: a vector belongs to its chunk, or its chunk is pending and the vector
is one of before; and the cache holds embeddings of the client. -/
structure Embedding (r : Refresh sha V) (before s : VectorIndex V)
    (pending : List (Str × CodeChunk)) : Prop where
  records : ∀ ident, s.records.get ident = (byId r.chunks).get ident
  waiting : ∀ item ∈ pending, s.vectors.get item.1 = before.vectors.get item.1 ∨
    s.vectors.get item.1 = none
  vectors : ∀ ident vector, s.vectors.get ident = some vector →
    ident ∈ pending.map Prod.fst ∨
      ∃ chunk, (byId r.chunks).get ident = some chunk ∧ vector = r.client.embed chunk.head
  cached : ∀ item ∈ pending, CacheFits r before.cache s.cache item.2.head

/-- The chunk at the front gets the client's embedding. -/
theorem Embedding.embedded {before : VectorIndex V} {item : Str × CodeChunk}
    {pending : List (Str × CodeChunk)} (h : Embedding r before s (item :: pending))
    (hchunk : (byId r.chunks).get item.1 = some item.2)
    (hnodup : ((item :: pending).map Prod.fst).Nodup) {t : VectorIndex V}
    (hrecords : t.records = s.records)
    (hvectors : t.vectors = s.vectors.set item.1 (r.client.embed item.2.head))
    (hcached : ∀ other ∈ pending, CacheFits r before.cache t.cache other.2.head) :
    Embedding r before t pending := by
  obtain ⟨hnot, _⟩ := List.nodup_cons.mp hnodup
  refine ⟨?_, ?_, ?_, hcached⟩
  · rw [hrecords]
    exact h.records
  · intro other hother
    have hne : other.1 ≠ item.1 := by
      intro hsame
      exact hnot (hsame ▸ List.mem_map_of_mem (f := Prod.fst) hother)
    rw [hvectors, OrderedDict.get_set_ne _ _ hne]
    exact h.waiting other (List.mem_cons_of_mem _ hother)
  · intro ident vector hvector
    rw [hvectors, OrderedDict.get_set] at hvector
    split at hvector
    · next hsame =>
        cases hvector
        exact Or.inr ⟨item.2, hsame ▸ hchunk, rfl⟩
    · next hne =>
        rcases h.vectors ident vector hvector with hpending | hbelongs
        · rw [List.map_cons, List.mem_cons] at hpending
          exact Or.inl (hpending.resolve_left hne)
        · exact Or.inr hbelongs

/-- The chunk at the front keeps what it has, which is right for it. -/
theorem Embedding.skipped {before : VectorIndex V} {item : Str × CodeChunk}
    {pending : List (Str × CodeChunk)} (h : Embedding r before s (item :: pending))
    (hchunk : (byId r.chunks).get item.1 = some item.2)
    (hkeeps : ∀ vector, before.vectors.get item.1 = some vector →
      vector = r.client.embed item.2.head) {t : VectorIndex V}
    (hrecords : t.records = s.records) (hvectors : t.vectors = s.vectors)
    (hcached : ∀ other ∈ pending, CacheFits r before.cache t.cache other.2.head) :
    Embedding r before t pending := by
  refine ⟨?_, ?_, ?_, hcached⟩
  · rw [hrecords]
    exact h.records
  · intro other hother
    rw [hvectors]
    exact h.waiting other (List.mem_cons_of_mem _ hother)
  · intro ident vector hvector
    rw [hvectors] at hvector
    rcases h.vectors ident vector hvector with hpending | hbelongs
    · rw [List.map_cons, List.mem_cons] at hpending
      rcases hpending with rfl | hpending
      · right
        refine ⟨item.2, hchunk, hkeeps vector ?_⟩
        rcases h.waiting item List.mem_cons_self with hsame | hempty
        · exact hsame.symm.trans hvector
        · rw [hempty] at hvector
          cases hvector
      · exact Or.inl hpending
    · exact Or.inr hbelongs

theorem Embedding.step {before : VectorIndex V} {item : Str × CodeChunk}
    {pending : List (Str × CodeChunk)} (h : Embedding r before s (item :: pending))
    (hchunk : (byId r.chunks).get item.1 = some item.2)
    (hnodup : ((item :: pending).map Prod.fst).Nodup)
    (hkeeps : before.cache.get (embeddingCacheKey sha r.client.model item.2.head) = none →
      r.fails item.1 ≠ none → ∀ vector, before.vectors.get item.1 = some vector →
        vector = r.client.embed item.2.head) :
    Embedding r before (save (embedChunk r s item).1) pending := by
  have hitem := h.cached item List.mem_cons_self
  have hrest : ∀ other ∈ pending, CacheFits r before.cache s.cache other.2.head :=
    fun other hother => h.cached other (List.mem_cons_of_mem _ hother)
  have hset : ∀ other ∈ pending, CacheFits r before.cache
      (s.cache.set (embeddingCacheKey sha r.client.model item.2.head)
        (r.client.embed item.2.head)) other.2.head :=
    fun other hother => (hrest other hother).set item.2.head
  cases hcache : s.cache.get (embeddingCacheKey sha r.client.model item.2.head) with
  | some vector =>
      obtain rfl := hitem.1 vector hcache
      have hresult : (embedChunk r s item).1 =
          { s with vectors := s.vectors.set item.1 (r.client.embed item.2.head) } := by
        simp only [embedChunk, hcache]
      rw [hresult]
      exact h.embedded hchunk hnodup rfl rfl hrest
  | none =>
      cases hfailure : r.fails item.1 with
      | none =>
          have hresult : (embedChunk r s item).1 =
              { s with
                cache := s.cache.set (embeddingCacheKey sha r.client.model item.2.head)
                  (r.client.embed item.2.head),
                cacheFile := s.cache.set (embeddingCacheKey sha r.client.model item.2.head)
                  (r.client.embed item.2.head),
                vectors := s.vectors.set item.1 (r.client.embed item.2.head) } := by
            simp only [embedChunk, hcache, hfailure]
          rw [hresult]
          exact h.embedded hchunk hnodup rfl rfl hset
      | some failure =>
          have hkept := hkeeps (hitem.2 hcache) (by rw [hfailure]; exact Option.some_ne_none _)
          cases failure with
          | call =>
              have hresult : (embedChunk r s item).1 = s := by
                simp only [embedChunk, hcache, hfailure]
              rw [hresult]
              exact h.skipped hchunk hkept rfl rfl hrest
          | cacheFile torn =>
              have hresult : (embedChunk r s item).1 =
                  { s with
                    cache := s.cache.set (embeddingCacheKey sha r.client.model item.2.head)
                      (r.client.embed item.2.head),
                    cacheFile := if torn then ∅ else s.cacheFile } := by
                simp only [embedChunk, hcache, hfailure]
              rw [hresult]
              exact h.skipped hchunk hkept rfl rfl hset

theorem Embedding.all {before : VectorIndex V} {pending : List (Str × CodeChunk)} {embedded : Nat}
    (h : Embedding r before s pending)
    (hchunks : ∀ item ∈ pending, (byId r.chunks).get item.1 = some item.2)
    (hnodup : (pending.map Prod.fst).Nodup)
    (hkeeps : ∀ item ∈ pending,
      before.cache.get (embeddingCacheKey sha r.client.model item.2.head) = none →
      r.fails item.1 ≠ none → ∀ vector, before.vectors.get item.1 = some vector →
        vector = r.client.embed item.2.head) :
    Embedding r before (embedAll r (s, embedded) pending).1 [] := by
  induction pending generalizing s embedded with
  | nil => exact h
  | cons item pending ih =>
      have hnext := h.step (hchunks item List.mem_cons_self) hnodup
        (hkeeps item List.mem_cons_self)
      exact ih hnext (fun other hother => hchunks other (List.mem_cons_of_mem _ hother))
        (List.nodup_cons.mp hnodup).2 fun other hother => hkeeps other (List.mem_cons_of_mem _ hother)

/-- A refresh that fits leaves every vector with its chunk. -/
theorem refresh_spec (hsane : Sane sha s) (hfits : Fits s r) :
    Sane sha (refresh r s).1 ∧ Belongs r.client (refresh r s).1 := by
  obtain ⟨hrecords, hvectors, hcache⟩ := recordChunks_spec hsane (byId r.chunks)
  have hpending : ∀ item ∈ (recordChunks (byId r.chunks) (dropGone (byId r.chunks) s)).2,
      (byId r.chunks).get item.1 = some item.2 ∧ stale s item.1 item.2 = true := by
    intro item hitem
    obtain ⟨hentry, hstale⟩ := List.mem_filter.mp hitem
    have hget := (byId r.chunks).get_of_mem hentry
    rw [stale_dropGone hget] at hstale
    exact ⟨hget, hstale⟩
  have hstart : Embedding r s (recordChunks (byId r.chunks) (dropGone (byId r.chunks) s)).1
      (recordChunks (byId r.chunks) (dropGone (byId r.chunks) s)).2 := by
    refine ⟨hrecords, ?_, ?_, ?_⟩
    · intro item hitem
      cases hvector : (recordChunks (byId r.chunks)
          (dropGone (byId r.chunks) s)).1.vectors.get item.1 with
      | none => exact Or.inr rfl
      | some vector => exact Or.inl (hvectors _ _ hvector).1.symm
    · intro ident vector hvector
      obtain ⟨hbefore, hthere⟩ := hvectors ident vector hvector
      obtain ⟨chunk, hchunk⟩ := Option.isSome_iff_exists.mp hthere
      by_cases hstale : stale s ident chunk = true
      · left
        refine List.mem_map.mpr ⟨(ident, chunk), List.mem_filter.mpr ⟨?_, ?_⟩, rfl⟩
        · exact (byId r.chunks).mem_of_get hchunk
        · rw [stale_dropGone hchunk]
          exact hstale
      · -- A vector that is kept is of an old text with the same hash.
        right
        obtain ⟨old, hold⟩ := Option.isSome_iff_exists.mp (hsane.keyed ident vector hbefore)
        rw [stale, hold, hbefore, Option.isNone_some, Bool.or_false, decide_eq_true_eq,
          Option.map_some, ne_eq, not_not, Option.some.injEq] at hstale
        have htext : old.text = chunk.text := by
          apply sha.injective
          rw [← hsane.hashed ident old hold, ← r.hashed chunk (mem_of_byId hchunk)]
          exact hstale
        refine ⟨chunk, hchunk, ?_⟩
        rw [hfits.kept ident old chunk vector hold hchunk hstale hbefore, CodeChunk.head,
          CodeChunk.head, htext]
    · intro item hitem
      obtain ⟨hchunk, hstale⟩ := hpending item hitem
      rw [hcache]
      exact ⟨fun vector => hfits.cached item.1 item.2 vector hchunk hstale, id⟩
  have hnodup : ((recordChunks (byId r.chunks) (dropGone (byId r.chunks) s)).2.map Prod.fst).Nodup :=
    (List.filter_sublist.map Prod.fst).nodup (byId r.chunks).nodup
  have hend : Embedding r s
      (embedAll r ((recordChunks (byId r.chunks) (dropGone (byId r.chunks) s)).1, 0)
        (recordChunks (byId r.chunks) (dropGone (byId r.chunks) s)).2).1 [] := by
    refine hstart.all (fun item hitem => (hpending item hitem).1) hnodup ?_
    intro item hitem hmiss hfails vector
    obtain ⟨hchunk, hstale⟩ := hpending item hitem
    exact hfits.failed item.1 item.2 vector hchunk hstale hmiss hfails
  have hbelongs : Belongs r.client (refresh r s).1 := by
    intro ident vector hvector
    rcases hend.vectors ident vector hvector with hnone | ⟨chunk, hchunk, hembed⟩
    · cases hnone
    · exact ⟨chunk, (hend.records ident).trans hchunk, hembed⟩
  refine ⟨⟨?_, ?_, rfl, rfl⟩, hbelongs⟩
  · intro ident vector hvector
    obtain ⟨chunk, hchunk, _⟩ := hbelongs ident vector hvector
    rw [hchunk]
    rfl
  · intro ident chunk hchunk
    exact r.hashed chunk (mem_of_byId ((hend.records ident).symm.trans hchunk))

end Refresh

/-! ## Runs -/

variable {sha : Sha256}

theorem Sane.start : Sane sha ({} : VectorIndex V) :=
  ⟨by simp, by simp, rfl, rfl⟩

theorem Sane.next {s : VectorIndex V} {step : IndexStep sha V} (h : Sane sha s)
    (hfits : StepFits s step) : Sane sha ((vectorIndex sha).next s step) := by
  cases step with
  | refresh r => exact (refresh_spec h hfits).1
  | reopen =>
      have hrecords : (reopen s).records = s.records := h.chunkFile
      have hvectors : (reopen s).vectors = s.vectors := h.vectorFile
      refine ⟨?_, ?_, rfl, rfl⟩
      · show ∀ ident vector, (reopen s).vectors.get ident = some vector →
          ((reopen s).records.get ident).isSome
        rw [hrecords, hvectors]
        exact h.keyed
      · show ∀ ident chunk, (reopen s).records.get ident = some chunk →
          chunk.contentHash = sha.hexdigest chunk.text
        rw [hrecords]
        exact h.hashed

/-- A digest that is right for the texts of a table. -/
def tableDigest (table : List (Str × Str)) (text : Str) : Str :=
  match table.find? (fun entry => entry.1 = text) with
  | some entry => entry.2
  | none => 'x' :: text

def Sha256.ofTable (table : List (Str × Str)) (hnodup : (table.map Prod.snd).Nodup)
    (hhex : ∀ entry ∈ table, entry.2.head? ≠ some 'x') : Sha256 where
  hexdigest := tableDigest table
  injective := by
    have hfound : ∀ {text : Str} {entry : Str × Str},
        table.find? (fun entry => entry.1 = text) = some entry →
          entry ∈ table ∧ entry.1 = text := by
      intro text entry h
      have htext := List.find?_some h
      exact ⟨List.mem_of_find?_eq_some h, of_decide_eq_true htext⟩
    intro text text' h
    unfold tableDigest at h
    split at h
    · next entry hentry =>
        split at h
        · next entry' hentry' =>
            have hsame := List.inj_on_of_nodup_map hnodup (hfound hentry).1 (hfound hentry').1 h
            exact (hfound hentry).2.symm.trans (hsame ▸ (hfound hentry').2)
        · exact absurd (congrArg List.head? h) (hhex entry (hfound hentry).1)
    · split at h
      · next entry' hentry' =>
          exact absurd (congrArg List.head? h).symm (hhex entry' (hfound hentry').1)
      · exact (List.cons.inj h).2

/-- The lowest digits of a number, in base 16. -/
def hexdigits : Nat → Nat → Str
  | 0, _ => []
  | count + 1, n => hexdigits count (n / 16) ++ [(n % 16).digitChar]

def sampleSha : Sha256 :=
  let first := hexdigits 64 0xb5bc1ffd90912fb18bef6e7d80909192c7a6492896320156d67fbaf104c6544a
  let second := hexdigits 64 0xd6caeea65266578487abe1370e07a0238918637bd5e81e923e12a24c618ab60e
  let keyed (digest : Str) := [Char.ofNat 0x1f].intercalate
    ["embedding".toList, "bge-m3".toList, digest]
  Sha256.ofTable
    [("a = 1".toList, first), ("a = 2".toList, second),
      (keyed first, hexdigits 64 0x4b41a130c25831f8378d341a8ce9e2f23d99e218d1da2c973ac9ae7c4af55ea7),
      (keyed second, hexdigits 64 0xc26a3099f6a1f6dfa9cc709026b0b0a8ffd7f265a261873b932500ccab9bbbbe)]
    (by decide +kernel) (by decide +kernel)

def lineChunk (text : String) : CodeChunk where
  chunkId := "a.py:1:1".toList
  path := "a.py".toList
  startLine := 1
  endLine := 1
  symbol := []
  contentHash := sampleSha.hexdigest text.toList
  text := text.toList

/-- A client whose vectors are the texts themselves. -/
def bge : EmbeddingClient Str where
  model := "bge-m3".toList
  embed text := text

def lineRefresh (text : String) (failure : Option EmbedFailure) : Refresh sampleSha Str where
  client := bge
  chunks := [lineChunk text]
  hashed := by
    intro chunk hchunk
    rw [List.mem_singleton.mp hchunk]
    rfl
  fails _ := failure

/-- The text changes, and the index is opened again in between. -/
def editedRun (failure : Option EmbedFailure) : List (IndexStep sampleSha Str) :=
  [.refresh (lineRefresh "a = 1" none), .reopen, .refresh (lineRefresh "a = 2" failure)]

end Index
end CodeCub
