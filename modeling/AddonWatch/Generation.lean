namespace AddonWatch

/-- A signed 64-bit number that counts the changes of an object. -/
structure Generation where
  val : Int
  least : -9223372036854775808 ≤ val
  most : val ≤ 9223372036854775807
deriving DecidableEq, Repr

namespace Generation

@[ext] theorem ext {a b : Generation} (h : a.val = b.val) : a = b := by
  cases a; cases b; cases h; rfl

def zero : Generation := ⟨0, by decide, by decide⟩

instance : Inhabited Generation := ⟨zero⟩

def ofInt? (n : Int) : Option Generation :=
  if h : -9223372036854775808 ≤ n ∧ n ≤ 9223372036854775807 then some ⟨n, h.1, h.2⟩ else none

/-- One more, except that the greatest number stays. -/
def bump (g : Generation) : Generation :=
  if h : g.val < 9223372036854775807 then
    ⟨g.val + 1, by have := g.least; omega, by omega⟩
  else g

/-- What to record after seeing an object at `current`: a positive generation is taken over, any
other counts as one more change. -/
def observe (previous current : Generation) : Generation :=
  if 0 < current.val then current else previous.bump

end Generation

end AddonWatch
