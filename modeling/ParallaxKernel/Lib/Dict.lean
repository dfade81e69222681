import ParallaxKernel.Lib.KeyedList

/-!
# Dictionaries

The items of a dictionary in the order of insertion. Dictionaries with the same values under the
same keys hold the same items.
-/

namespace ParallaxKernel.Lib

/-- A dictionary, with no key twice. -/
structure Dict (V : Type) where
  items : List (String × V)
  nodup : (items.map Prod.fst).Nodup

namespace Dict

variable {V : Type}

def keys (d : Dict V) : List String := d.items.map Prod.fst

def get? (d : Dict V) (key : String) : Option V := (lookupKey Prod.fst key d.items).map Prod.snd

/-- `key in d`. -/
def contains (d : Dict V) (key : String) : Bool := (d.get? key).isSome

/-- The items whose value satisfies `p`. -/
def filter (d : Dict V) (p : V → Bool) : Dict V where
  items := d.items.filter fun item => p item.2
  nodup := (List.filter_sublist.map Prod.fst).nodup d.nodup

theorem get?_eq_some {d : Dict V} {key : String} {v : V} :
    d.get? key = some v ↔ (key, v) ∈ d.items := by
  constructor
  · intro h
    obtain ⟨⟨k, w⟩, hitem, hw⟩ := Option.map_eq_some_iff.1 h
    obtain ⟨hmem, hkey⟩ := lookupKey_mem hitem
    obtain rfl : k = key := hkey
    obtain rfl : w = v := hw
    exact hmem
  · intro h
    exact Option.map_eq_some_iff.2 ⟨(key, v), lookupKey_of_mem d.nodup h, rfl⟩

theorem get?_filter {d : Dict V} {p : V → Bool} {key : String} :
    (d.filter p).get? key = (d.get? key).filter p := by
  ext v
  simp [get?_eq_some, filter, Option.filter_eq_some_iff]

/-- Dictionaries that agree under every key hold the same items. -/
theorem perm_of_get? {d e : Dict V} (h : ∀ key, d.get? key = e.get? key) :
    d.items.Perm e.items := by
  refine (List.perm_ext_iff_of_nodup d.nodup.of_map e.nodup.of_map).2 fun item => ?_
  rw [← get?_eq_some, ← get?_eq_some, h]

end Dict
end ParallaxKernel.Lib
