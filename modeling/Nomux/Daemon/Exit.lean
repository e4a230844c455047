import Nomux.Daemon.Output
import Nomux.Session.Ending

/-!
# Exit closes a complete transcript

The session's guarantee for its end, at the daemon: one outcome, kept, and on each connection one
`Exit` behind all the output there will ever be.
-/

namespace Nomux
open Wire World

end Nomux
