import AddonWatch.Cluster.Subscription

namespace AddonWatch.Cluster

/-- An item that the reader of a subscription heard, the requests that were made for it, and the
copy of the objects at that time. -/
structure JournalEntry (α : Type) where
  signal : Signal
  requests : List Request
  replica : Replica α

/-- All that a reader heard, the requests that brought nothing more, where things stand, and whether
the subscription has broken down. -/
structure Journal (α : Type) where
  entries : List (JournalEntry α)
  behind : List Request
  last : Subscription α
  exchange : Exchange
  broken : Bool

def Signal.isFault : Signal → Bool
  | .ok _ => false
  | .error _ => true

def Response.size : Response → Nat
  | answered _ body => body.length + 1
  | failed => 1

/-- A bound on the size of the answers to come. -/
def Exchange.size (x : Exchange) : Nat :=
  x.responses.foldr (fun response rest => response.size + rest) 0

namespace Subscription

variable {α : Type}

/-- Reads item after item while `patience` lasts; every fault in a row takes one off it. -/
def record (patience : Nat) : Nat → Nat → Subscription α → Exchange → Journal α
  | 0, _, s, x => ⟨[], [], s, x, false⟩
  | _, 0, s, x => ⟨[], [], s, x, false⟩
  | fuel + 1, left + 1, s, x =>
    let before := x.requests.length
    let (heard, s, x) := s.next x
    let requests := x.requests.drop before
    match heard with
    | .silence => ⟨[], requests, s, x, false⟩
    | .breakdown => ⟨[], requests, s, x, true⟩
    | .item signal =>
      let journal :=
        record patience fuel (if Signal.isFault signal then left else patience) s x
      { journal with entries := ⟨signal, requests, s.replica⟩ :: journal.entries }

/-- Reads until nothing more comes, or until there were so many faults in a row. Each answer holds
fewer objects and lines than characters. -/
def journal (patience : Nat) (s : Subscription α) (x : Exchange) : Journal α :=
  record patience ((x.size + 1) * (patience + 1)) patience s x

end Subscription

end AddonWatch.Cluster
