import Snail.Reasoning.Lists
import Snail.Reasoning.Text
import Snail.Reasoning.Utf8
import Snail.Mail.Inbound
import Snail.Mail.Outbound
import Snail.Network.Dkim.Canonicalize
import Snail.Network.Dkim.RelayHop
import Snail.Network.Spf.Budget
import Snail.Network.Spf.Semantics
import Snail.Access.Msa
import Snail.Access.Pop
import Snail.Network.Dkim.Fields
import Snail.Network.Dkim.Select
import Snail.Network.Dkim.HeaderHash
import Snail.Network.Dkim.HashDecode
import Snail.Network.Dmarc
import Snail.Network.MtaSts.Policy
import Snail.Network.MtaSts.Resolver
import Snail.Reasoning.Files
import Snail.Security.Greylist
import Snail.Security.Throttle
import Snail.Server.Accepted
import Snail.Server.PublicPort
import Snail.Server.Submission
import Snail.Server.SpoolRecord
import Snail.Server.SpoolRuns
import Snail.Server.Relay
import Snail.Server.FromHeader
import Snail.Access.Isolation
import Snail.Access.PopDeletes
import Snail.Server.Routing
import Snail.Server.OwnerMail
import Snail.Server.Lockout
import Snail.Server.Upgrade
import Snail.Server.RelayOrder
import Snail.Server.DmarcReport
import Snail.Server.RetryQueue
import Snail.Reasoning.Limiter
import Snail.Reasoning.Gate
import Snail.Security.AuditEdits
import Snail.Security.GreylistRuns
import Snail.Server.DmarcAggregate
import Snail.Server.ParallelGuesses
import Snail.Server.AuthResults
import Snail.Server.MailLoop
import Snail.Mail.Transactions
import Snail.Mail.Keywords
import Snail.Network.Dkim.BodyForms
import Snail.Network.Dkim.Stripped
import Snail.Network.Dkim.Verbatim
import Snail.Network.Spf.Grammar
import Snail.Network.Spf.RoundTrip
import Snail.Network.Spf.Malformed
import Snail.Network.Spf.Expansion
import Snail.Network.DmarcVerdicts
import Snail.Network.MtaSts.CacheRuns
import Snail.Network.MtaSts.Fetch
import Snail.Server.DsnParts
import Snail.Reasoning.LineEnds
import Snail.Reasoning.Xml
import Snail.Server.ReportXml
import Snail.Client.Compose
import Snail.Reasoning.Calendar
import Snail.Server.Dates
import Snail.Reasoning.Digits
import Snail.Server.SpoolIds
import Snail.Network.MtaSts.Labels
import Snail.Network.Spf.Networks
import Snail.Access.Dovecot
import Snail.Security.FirewallRuns
import Snail.Security.AuditLog
import Snail.Client.SmtpScript
import Snail.Server.DaneRelay
import Snail.Server.AcceptLoop
