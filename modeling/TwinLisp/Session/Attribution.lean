import TwinLisp.Syntax.Location

/-!
# Attribution

While a native function runs, this table says where its call and its arguments stand in the source,
so that a failure can be blamed on the argument that caused it. Only the first few arguments have a
place of their own; the others, and those whose location is unknown, fall back to the call.

## Main statements

* `Attribution.argument_of_tracked_le`: arguments beyond the last place fall back to the call.
-/

namespace TwinLisp

/-- Where the running call and its arguments stand. -/
structure Attribution where
  /-- The locations of the first arguments. -/
  arguments : Array Location
  /-- The location of the call. -/
  site : Location
  deriving DecidableEq

namespace Attribution

/-- The number of arguments with a place of their own. -/
def tracked : Nat := 8

/-- The table for a call at `site` of whose arguments nothing is known. -/
def ofCall (site : Location) : Attribution := ⟨Array.replicate tracked .unknown, site⟩

/-- The table before any call. -/
def initial : Attribution := ofCall .unknown

/-- Record the location of argument `i`. -/
def record (t : Attribution) (i : Nat) (l : Location) : Attribution :=
  { t with arguments := t.arguments.setIfInBounds i l }

/-- The table for a call at `site` whose arguments stand at the given locations. -/
def ofArguments (site : Location) (arguments : List Location) : Attribution :=
  arguments.zipIdx.foldl (fun t a => t.record a.2 a.1) (ofCall site)

/-- The location to blame for argument `i`. -/
def argument (t : Attribution) (i : Nat) : Location :=
  (t.arguments[i]?.getD .unknown).orElse t.site

theorem argument_of_tracked_le (site : Location) {i : Nat} (h : tracked ≤ i) :
    (ofCall site).argument i = site := by
  have : (Array.replicate tracked Location.unknown)[i]? = none := by simp [h]
  simp [argument, ofCall, this]

end Attribution

end TwinLisp
