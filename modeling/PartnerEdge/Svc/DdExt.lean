import Mathlib.Data.List.AList
import PartnerEdge.Svc.DdParse

/-!
# The per-subscriber structure cache

`DdStructureCache` keeps the latest template dependency structure of each publisher track, at most
`maxStreams` of them, and drops the oldest key when a new one arrives at a full cache. The key is
the publisher and its media id; a simulcast layer is not part of it.
-/

namespace PartnerEdge.Svc

abbrev ClientId := Nat

abbrev Mid := String

abbrev StreamKey := ClientId × Mid

structure DdStructureCache where
  map : AList fun _ : StreamKey => TemplateDependencyStructure
  /-- The keys in insertion order, oldest first. -/
  order : List StreamKey

def maxStreams : Nat := 32

namespace DdStructureCache

def new : DdStructureCache := ⟨∅, []⟩

def get (cache : DdStructureCache) (key : StreamKey) : Option TemplateDependencyStructure :=
  cache.map.lookup key

/-- Makes room at capacity: the oldest key leaves the queue and the map. -/
def evictOldest (cache : DdStructureCache) : DdStructureCache :=
  if cache.order.length ≥ maxStreams then
    match cache.order with
    | evicted :: order => { map := cache.map.erase evicted, order }
    | [] => cache
  else cache

def insert (cache : DdStructureCache) (key : StreamKey) (s : TemplateDependencyStructure) :
    DdStructureCache :=
  if key ∈ cache.map then
    { cache with map := cache.map.insert key s }
  else
    let roomy := cache.evictOldest
    { map := roomy.map.insert key s, order := roomy.order ++ [key] }

/-- The number of cached structures. -/
def len (cache : DdStructureCache) : Nat := cache.map.keys.length

def clear (_ : DdStructureCache) : DdStructureCache := ⟨∅, []⟩

@[simp] theorem get_new (key : StreamKey) : new.get key = none := rfl

@[simp] theorem get_clear (cache : DdStructureCache) (key : StreamKey) :
    cache.clear.get key = none := rfl

@[simp] theorem get_insert_self (cache : DdStructureCache) (key : StreamKey)
    (s : TemplateDependencyStructure) : (cache.insert key s).get key = some s := by
  unfold insert get
  split <;> exact AList.lookup_insert _

theorem get_evictOldest {cache : DdStructureCache} {key : StreamKey}
    {s : TemplateDependencyStructure} (h : cache.evictOldest.get key = some s) :
    cache.get key = some s := by
  unfold evictOldest at h
  split at h
  · split at h
    · next evicted order _ =>
      unfold get at h ⊢
      by_cases hkey : key = evicted
      · subst hkey
        simp at h
      · rwa [AList.lookup_erase_ne hkey] at h
    · exact h
  · exact h

/-- What is found under another key after an insertion was there before it. -/
theorem get_of_insert_ne {cache : DdStructureCache} {key other : StreamKey}
    {s t : TemplateDependencyStructure} (hne : other ≠ key)
    (h : (cache.insert key s).get other = some t) : cache.get other = some t := by
  unfold insert at h
  split at h
  · unfold get at h ⊢
    rwa [AList.lookup_insert_ne hne] at h
  · apply get_evictOldest
    unfold get at h ⊢
    rwa [AList.lookup_insert_ne hne] at h

end DdStructureCache

end PartnerEdge.Svc
