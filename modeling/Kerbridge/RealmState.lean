import Mathlib.Data.Nat.Notation

/-!
# Markers and constants of the realm

The values every component stamps on directory objects and reads back from
them, and the flag of a disabled account.
-/

namespace Kerbridge.RealmState

/-- The role marker of the admission group. -/
def roleAdmission : String := "kbrole1|realm-admission"

/-- The role marker of the device-grant group. -/
def roleDeviceGrant : String := "kbrole1|device-grant"

/-- The marker of a delegate group; one group carries it per delegated account. -/
def roleDelegates : String := "kbrole1|delegates"

/-- Prefix of the marker of a user held only for its security identifier. -/
def stRetired : String := "kbstate1|retired|"

/-- Prefix of the marker of a group held through its retention. -/
def stQuar : String := "kbstate1|quarantined|"

/-- Prefix of the marker of an account whose login name was set by hand. -/
def stNamePinned : String := "kbstate1|namepinned|"

/-- Name prefix of an object kept only for its security identifier. -/
def retiredPrefix : String := "_retired-"

/-- The flag of a disabled account. -/
def ufAccountDisable : ℕ := 0x0002

end Kerbridge.RealmState
