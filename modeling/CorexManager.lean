import CorexManager.ApiArmor.ApiKeys
import CorexManager.ApiArmor.Authenticated
import CorexManager.ApiArmor.Bundle
import CorexManager.ApiArmor.FormBody
import CorexManager.ApiArmor.GraphqlAnalysis
import CorexManager.ApiArmor.JwtValidator
import CorexManager.ApiArmor.LearnedSchema
import CorexManager.ApiArmor.LogTailer
import CorexManager.ApiArmor.QueryHash
import CorexManager.ApiArmor.SchemaMeaning
import CorexManager.Backup.Archive
import CorexManager.Builder.RoundTrip
import CorexManager.Cache.Agreement
import CorexManager.Cache.StoreRules
import CorexManager.Cache.Varnish
import CorexManager.Captcha.SingleUse
import CorexManager.Compression.Negotiation
import CorexManager.Compression.Payload
import CorexManager.Config.ListFiles
import CorexManager.Config.Snapshots
import CorexManager.Config.Status
import CorexManager.Config.StatusCache
import CorexManager.DiskCache.Filter
import CorexManager.DiskCache.Retention
import CorexManager.Frontend.ClientAddress
import CorexManager.Frontend.PageProtect
import CorexManager.Frontend.Switching
import CorexManager.Gateway.BundleSignature
import CorexManager.Gateway.CatalogChanges
import CorexManager.Gateway.CircuitBreaker
import CorexManager.Gateway.DlpScan
import CorexManager.Gateway.Envelope
import CorexManager.Gateway.GuardrailRules
import CorexManager.Gateway.Isolation
import CorexManager.Gateway.Jwt
import CorexManager.Gateway.Ownership
import CorexManager.Gateway.Redaction
import CorexManager.Gateway.Reload
import CorexManager.Gateway.ResourceUri
import CorexManager.Gateway.SessionUpdates
import CorexManager.Gateway.SkillPrompts
import CorexManager.Gateway.Ssrf
import CorexManager.Limits.ConcurrentSlots
import CorexManager.Limits.Lockout
import CorexManager.ReqFp.Fingerprint
import CorexManager.RespTransform.Backrefs
import CorexManager.RespTransform.Delivery
import CorexManager.RespTransform.Encodings
import CorexManager.RespTransform.Files
import CorexManager.RespTransform.Lifetimes
import CorexManager.RespTransform.Reloads
import CorexManager.RespTransform.Tokens
import CorexManager.RiskScoring.Listener
import CorexManager.Security.Alternatives
import CorexManager.Security.FirstRule
import CorexManager.Security.Ja4
import CorexManager.Security.RequestRules
import CorexManager.Security.ResponseRules
import CorexManager.Stdio.Pending
import CorexManager.Stdio.Processes
import CorexManager.Tasks.Periodic
import CorexManager.Tasks.Queue
import CorexManager.Terraform.Values
