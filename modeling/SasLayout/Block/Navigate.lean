import SasLayout.Block.Locate

set_option autoImplicit false

/-! The next and the previous block header. Closers and the option `data =` are passed over; a
header without a name is a place to stop. -/
namespace SasLayout.Scanner

/-- The block whose keyword stands at `place`, if one can stop there. -/
def stopAt (sc : Scanner) (place : Extent) : Logged (Except ScanError (Option Block)) := do
  let b ← sc.blockAt place
  if b.kind.isOpener then
    return (← sc.withEnd b).map some
  else if b.kind = .error then return .ok (some b)
  else return .ok none

/-- The first place to stop from `anchor` on that `wanted` admits. -/
def stopFrom (sc : Scanner) (towards : Direction) (wanted : Extent → Bool) (offset : Nat) :
    (retries anchor : Nat) → (events : Array Event) → Logged (Except ScanError (Option Block))
  | 0, _, events => ⟨.error (.retryLimit offset sc.settings.limits.retries), events⟩
  | retries + 1, anchor, events =>
    let ended := sc.search sc.keywords anchor towards
    match ended.value with
    | .absent => ⟨.ok none, events ++ ended.events⟩
    | .gaveUp limit =>
      ⟨.error (.retryLimit limit sc.settings.limits.retries), events ++ ended.events⟩
    | .found place =>
      if wanted place then
        let stop := sc.stopAt place
        match stop.value with
        | .ok none =>
          sc.stopFrom towards wanted offset retries (place.beyond towards)
            (events ++ ended.events ++ stop.events)
        | result => ⟨result, events ++ ended.events ++ stop.events⟩
      else
        sc.stopFrom towards wanted offset retries (place.beyond towards) (events ++ ended.events)

/-- The first header after `offset`, with the block's end. -/
def nextBlock (sc : Scanner) (offset : Nat) : Logged (Except ScanError (Option Block)) :=
  match sc.source.checkOffset offset with
  | .error cause => pure (.error (.outOfRange cause))
  | .ok offset =>
    sc.stopFrom .forward (fun _ => true) offset sc.settings.limits.retries (sc.text.next offset) #[]

/-- The last header before `offset`, with the block's end. -/
def previousBlock (sc : Scanner) (offset : Nat) : Logged (Except ScanError (Option Block)) :=
  match sc.source.checkOffset offset with
  | .error cause => pure (.error (.outOfRange cause))
  | .ok offset =>
    sc.stopFrom .backward (·.start < offset) offset sc.settings.limits.retries offset #[]

end SasLayout.Scanner
