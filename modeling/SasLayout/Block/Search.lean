import SasLayout.Block
import SasLayout.Block.Pattern
import SasLayout.Logged
import SasLayout.Token.Lookup

set_option autoImplicit false

/-!
The search for a block keyword that counts: one in the code and, when keywords are anchored, at the
start of a statement. Each rejected candidate moves the anchor past itself, and the search gives up
after a fixed number of them.
-/
namespace SasLayout

/-- Why a keyword does not count. -/
inductive Rejection where
  | covered
  | notAtStart
deriving DecidableEq, Repr

def Rejection.reason : Rejection → String
  | covered => "inside comment or string"
  | notAtStart => "not at statement start"

/-- How a search for a keyword ends. -/
inductive SearchEnd where
  | found (place : Extent)
  | absent
  | gaveUp (anchor : Nat)
deriving DecidableEq, Repr

/-- Where a search goes on after `place`. -/
def Extent.beyond (place : Extent) : Direction → Nat
  | .forward => place.stop
  | .backward => place.start

structure Scanner where
  source : Source
  settings : ScanSettings

namespace Scanner

def text (sc : Scanner) : Text :=
  sc.source.text

def rejection? (sc : Scanner) (place : Extent) : Option Rejection :=
  if !sc.source.map.isCode place.start then some .covered
  else if sc.settings.anchorKeywords && !sc.source.isStatementStart place.start then
    some .notAtStart
  else none

def candidate? (sc : Scanner) (pattern : Pattern) (anchor : Nat) : Direction → Option Extent
  | .forward => sc.text.firstMatch pattern anchor
  | .backward => sc.text.searchBackward pattern anchor

/-- The events of one rejection. -/
def rejectionEvents (sc : Scanner) (place : Extent) (why : Rejection) : Array Event :=
  if sc.settings.logRejected then
    let found := (sc.text.slice place.start place.stop).toString
    #[((Event.debug "Rejected block keyword").attach "match" found).attach "offset"
      s!"{place.start}" |>.attach "reason" why.reason]
  else #[]

/-- The search from `anchor` on that passes at most `retries` rejected keywords. -/
def searchFrom (sc : Scanner) (pattern : Pattern) (towards : Direction) :
    (retries anchor : Nat) → (events : Array Event) → Logged SearchEnd
  | 0, anchor, events => ⟨.gaveUp anchor, events⟩
  | retries + 1, anchor, events =>
    match sc.candidate? pattern anchor towards with
    | none => ⟨.absent, events⟩
    | some place =>
      match sc.rejection? place with
      | none => ⟨.found place, events⟩
      | some why =>
        sc.searchFrom pattern towards retries (place.beyond towards)
          (events ++ sc.rejectionEvents place why)

/-- The nearest keyword that counts. -/
def search (sc : Scanner) (pattern : Pattern) (anchor : Nat) (towards : Direction) :
    Logged SearchEnd :=
  sc.searchFrom pattern towards sc.settings.limits.retries anchor #[]

/-- A keyword found forward lies after the anchor. -/
theorem searchFrom_forward_bounds {sc : Scanner} {pattern : Pattern} (positive : pattern.Positive)
    {retries anchor : Nat} {events : Array Event} {place : Extent}
    (found : (sc.searchFrom pattern .forward retries anchor events).value = .found place) :
    anchor ≤ place.start ∧ place.start ≤ sc.text.size ∧ place.start < place.stop := by
  fun_induction searchFrom sc pattern .forward retries anchor events with
  | case1 => simp at found
  | case2 => simp at found
  | case3 retries anchor events m here _ =>
    cases found
    have bounds := Text.firstMatch_bounds here
    exact ⟨bounds.1, bounds.2.1, Text.firstMatch_lt positive here⟩
  | case4 retries anchor events m here why _ ih =>
    have bounds := Text.firstMatch_bounds here
    have rest := ih found
    simp only [Extent.beyond] at rest
    omega

/-- A keyword found backward lies before the anchor. -/
theorem searchFrom_backward_bounds {sc : Scanner} {pattern : Pattern}
    (positive : pattern.Positive) {retries anchor : Nat} {events : Array Event} {place : Extent}
    (found : (sc.searchFrom pattern .backward retries anchor events).value = .found place) :
    place.start < place.stop ∧ place.stop ≤ anchor := by
  fun_induction searchFrom sc pattern .backward retries anchor events with
  | case1 => simp at found
  | case2 => simp at found
  | case3 retries anchor events m here _ =>
    cases found
    exact ⟨Text.searchBackward_lt positive here, Text.searchBackward_stop_le here⟩
  | case4 retries anchor events m here why _ ih =>
    have before := Text.searchBackward_stop_le here
    have proper := Text.searchBackward_lt positive here
    have rest := ih found
    simp only [Extent.beyond] at rest
    omega

theorem search_forward_bounds {sc : Scanner} {pattern : Pattern} (positive : pattern.Positive)
    {anchor : Nat} {place : Extent}
    (found : (sc.search pattern anchor .forward).value = .found place) :
    anchor ≤ place.start ∧ place.start ≤ sc.text.size ∧ place.start < place.stop :=
  searchFrom_forward_bounds positive found

theorem search_backward_bounds {sc : Scanner} {pattern : Pattern} (positive : pattern.Positive)
    {anchor : Nat} {place : Extent}
    (found : (sc.search pattern anchor .backward).value = .found place) :
    place.start < place.stop ∧ place.stop ≤ anchor :=
  searchFrom_backward_bounds positive found

end Scanner
end SasLayout
