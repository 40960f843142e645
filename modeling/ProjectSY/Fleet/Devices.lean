import ProjectSY.App.Navigation
import ProjectSY.Lib.Sharing

/-!
# Any number of devices and the one backend

A fleet is a device for each `i : ι`; what one of them does to the server all of them
see.  The devices take their events in any order, each keeps its own writes in order,
and nothing else connects them.
-/

namespace ProjectSY

/-- The device with another server behind it. -/
def World.withServer (server : Server) (w : World) : World := { w with server := server }

@[simp] theorem World.withServer_server (server : Server) (w : World) :
    (w.withServer server).server = server := rfl

namespace Fleet

variable {ι : Type*}

/-- Fresh installs around one server. -/
def FirstLaunch (server : Server) (s : ι → World) : Prop :=
  ∀ i, ProjectSY.FirstLaunch (s i) ∧ (s i).server = server

theorem firstLaunch_newDevices (server : Server) :
    FirstLaunch server fun _ : ι => newDevice server :=
  fun _ => ⟨firstLaunch_newDevice server, rfl⟩

variable [DecidableEq ι]

abbrev step : (ι → World) → ι × Event → Option (ι → World) :=
  Sharing.step ProjectSY.step World.server World.withServer

end Fleet

end ProjectSY
