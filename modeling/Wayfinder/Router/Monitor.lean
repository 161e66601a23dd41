import Wayfinder.Outcome

/-!
# Watching a search

A running search is watched by a monitor. The monitor may stop it, because the request was
cancelled or because its deadline passed; the search asks only every `pollInterval` steps. It also
receives progress reports, percentages that are clamped to `[0, 100]` and passed on only when they
advance by at least one point since the last one passed on, or first reach 100. The monitor also
counts the steps of all searches of one request.
-/

namespace Wayfinder

/-- Number of search steps between two questions to the monitor. -/
def pollInterval : Nat := 64

/-- The outside view of one routing request. -/
structure Monitor where
  cancelled : Bool := false
  timedOut : Bool := false
  /-- Whether anyone receives progress reports. -/
  listening : Bool := true
  /-- The last percentage passed on, `-1` before the first. -/
  last : Float32 := -1.0
  /-- The percentages passed on, in order. -/
  reports : Array Float32 := #[]
  /-- Search steps taken so far. -/
  visited : Nat := 0
deriving Inhabited

namespace Monitor

/-- Why a search must stop now, if it must. -/
def interrupt (m : Monitor) : Option Outcome :=
  if m.cancelled then some .cancelled
  else if m.timedOut then some .routeNotFound
  else none

/-- `p` clamped to `[0, 100]`; NaN stays NaN. -/
def clampPercent (p : Float32) : Float32 :=
  if p < 0.0 then 0.0 else if p > 100.0 then 100.0 else p

/-- Receives a progress report. -/
def report (m : Monitor) (p : Float32) : Monitor :=
  if !m.listening then m
  else
    let p := clampPercent p
    if p ≥ m.last + 1.0 || (p ≥ 100.0 && m.last < 100.0) then
      { m with last := p, reports := m.reports.push p }
    else m

/-- Counts one search step. -/
def tick (m : Monitor) : Monitor := { m with visited := m.visited + 1 }

/-- Why the search must stop after the steps counted so far: it asks at every `pollInterval`-th
step only. -/
def stopNow? (m : Monitor) : Option Outcome :=
  if m.visited % pollInterval = 0 then m.interrupt else none

end Monitor

end Wayfinder
