import Wayfinder.Mode

/-!
# Stored preferences

A small key/value store that outlives sessions. The session keeps the mode of its last build
under `routerKey`; a stored value that does not name a mode counts as no preference.
-/

namespace Wayfinder

/-- Key/value pairs, each key at most once. -/
structure Preferences where
  entries : List (String × String) := []
deriving Inhabited

namespace Preferences

/-- The key of the mode of the last build. -/
def routerKey : String := "router"

/-- The value stored under `k`. -/
def get (p : Preferences) (k : String) : Option String := (p.entries.find? (·.1 = k)).map Prod.snd

/-- Stores `v` under `k`, replacing an earlier value. -/
def set (p : Preferences) (k v : String) : Preferences :=
  if p.entries.any (·.1 = k) then
    ⟨p.entries.map fun e => if e.1 = k then (k, v) else e⟩
  else ⟨p.entries ++ [(k, v)]⟩

/-- The mode of the last build, if one is stored and readable. -/
def lastMode (p : Preferences) : Option Mode :=
  (p.get routerKey).bind fun raw => (Mode.parse raw).toOption

/-- Stores `m` as the mode of the last build. -/
def remember (p : Preferences) (m : Mode) : Preferences := p.set routerKey m.name

end Preferences

end Wayfinder
