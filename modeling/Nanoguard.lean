import Nanoguard.Admin.Budget
import Nanoguard.Backend.Routing
import Nanoguard.Budget.Overshoot
import Nanoguard.ClientAuth.AuthRuns
import Nanoguard.ClientAuth.CacheRuns
import Nanoguard.Console.Accepted
import Nanoguard.Console.BackendFrame
import Nanoguard.Console.ConsoleAudit
import Nanoguard.Console.EditRace
import Nanoguard.Console.Extractors
import Nanoguard.Console.LiveFiles
import Nanoguard.Console.Reset
import Nanoguard.Console.Router
import Nanoguard.Console.Timestamps
import Nanoguard.Console.UserUpdate
import Nanoguard.Evaluation
import Nanoguard.Guard.CaseScan
import Nanoguard.Guard.Fence
import Nanoguard.Guard.Patterns
import Nanoguard.Guard.PlainJson
import Nanoguard.Matcher.CollapseLoop
import Nanoguard.Matcher.Engines
import Nanoguard.Matcher.FixedPoint
import Nanoguard.Matcher.OutputBytes
import Nanoguard.Matcher.OutputMask
import Nanoguard.Matcher.Separators
import Nanoguard.Policy.Identified
import Nanoguard.Proxy.Fallback
import Nanoguard.Proxy.Fresh
import Nanoguard.Proxy.RequestRewrite
import Nanoguard.Proxy.Sanitized
import Nanoguard.Proxy.SchemaShape
import Nanoguard.Proxy.StreamDenial
import Nanoguard.Proxy.StyleNames
import Nanoguard.Reload.Drift
import Nanoguard.Reload.Order
