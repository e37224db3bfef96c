import Nixd.Basic.Protocol
import Nixd.Diagnostic.Status
import Nixd.Diagnostic.Channel
import Nixd.Diagnostic.Order
import Nixd.Server.Basic
import Nixd.Server.Worker
import Nixd.Server.Document
import Nixd.Server.Version
import Nixd.Server.Run
import Nixd.Server.Diagnostics
import Nixd.Request.Declaration
import Nixd.Request.Format
import Nixd.Expr.Visitor
import Nixd.Request.Completion
