import ChipEight.Note
import ChipEight.Observation

/-!
A monitor puts into the journal what it observes and calls executed instructions by their entry
in the listing.
-/
namespace ChipEight.Desktop

structure Monitor where
  listing : Listing
deriving DecidableEq

namespace Monitor

def initial : Monitor := ⟨[]⟩

def loadNotes (listing : Listing) : List Note := [.listed listing.length]

/-- The listed words at the executed places; places beyond the listing are left out. -/
def describe (m : Monitor) (executed : List Nat) : List ListedWord :=
  executed.filterMap fun index => m.listing[index]?

def notes (m : Monitor) (o : Observation) : List Note :=
  (if o.executed = [] then [] else [.ran (m.describe o.executed)]) ++
    o.changed.map (fun (register, value) => .registerShown register value) ++
    (o.index.map Note.indexShown).toList

end Monitor
end ChipEight.Desktop
