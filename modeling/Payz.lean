import Payz.Payecs.Clients
import Payz.Ecs.Advance
import Payz.Ecs.Newentity
import Payz.Payecs.Newsystem
import Payz.Flow.Settings
import Payz.Plugin.Lock
import Payz.Payecs.Getcomponents
import Payz.Payecs.Names
import Payz.Payecs.Retention
import Payz.Plugin.Defaults
import Payz.Plugin.Failures
import Payz.Plugin.Printable
import Payz.Plugin.Commute
import Payz.Json.TokenEqual
import Payz.Plugin.Traces
import Payz.Tester.Pairing
import Payz.Tester.Chunks
import Payz.Payecs.Unchanged
import Payz.Payecs.Readback
import Payz.Flow.Amount
import Payz.Tester.Slurp
import Payz.Ecs.Concat
import Payz.Ecs.Copies
import Payz.Plugin.Dispatch
import Payz.Lib.Critbit
import Payz.Ccan.Strmap
import Payz.Ccan.Intmap
import Payz.Ccan.Names
import Payz.Ecs.Tables
import Payz.Ccan.Membuf
import Payz.Ccan.JsonOut
import Payz.Json.Channel
import Payz.Plugin.Input
import Payz.Plugin.Responses
import Payz.Plugin.Output
import Payz.Json.Scan
import Payz.Tester.Requests
