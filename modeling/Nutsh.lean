import Nutsh.Lib.Run
import Nutsh.Lib.IndexMap
import Nutsh.Lib.Json
import Nutsh.Lib.JsonPath
import Nutsh.Lib.Text
import Nutsh.Lib.Window
import Nutsh.Lib.Versioned
import Nutsh.Lib.Roster
import Nutsh.Lib.Serde
import Nutsh.Lib.Firsts
import Nutsh.Lib.Pages
import Nutsh.Lib.Replace
import Nutsh.Lib.Passes
import Nutsh.Catalog
import Nutsh.Lookup
import Nutsh.Entity
import Nutsh.Guardrails
import Nutsh.Lib.Glob
import Nutsh.Guardrails.Glob
import Nutsh.Resolving
import Nutsh.Body
import Nutsh.Store
import Nutsh.Store.Walk
import Nutsh.Search
import Nutsh.Search.Across
import Nutsh.Lib.Casing
import Nutsh.Lib.Split
import Nutsh.Search.Typing
import Nutsh.Lib.OData
import Nutsh.Search.Filter
import Nutsh.Search.Screen
import Nutsh.Sidebar
import Nutsh.Sidebar.Standing
import Nutsh.Store.Fresh
import Nutsh.Store.Keyed
import Nutsh.Store.Clock
import Nutsh.Store.HeadStart
import Nutsh.Prism.Session
import Nutsh.Prism.Refusal
import Nutsh.Prism.SingleFlight
import Nutsh.Prism.Bucket
import Nutsh.Prism.Pacing
import Nutsh.Prism.Brake
import Nutsh.Prism.Update
import Nutsh.Prism.Negotiate
import Nutsh.Prism.Repair
import Nutsh.Prism.Spending
import Nutsh.Prism.Listing
import Nutsh.Actions
import Nutsh.Actions.Parents
import Nutsh.Secrets
import Nutsh.Contexts
import Nutsh.Contexts.Joining
import Nutsh.Contexts.Files
import Nutsh.Contexts.Passwords
import Nutsh.Journal
import Nutsh.Scheduler
import Nutsh.Scheduler.Generations
import Nutsh.Scheduler.Probe
import Nutsh.Scheduler.Cycle
import Nutsh.Scheduler.Backoff
import Nutsh.Scheduler.Forced
import Nutsh.Scheduler.Stopped
import Nutsh.Scheduler.Unchanged
import Nutsh.Scheduler.Walks
import Nutsh.Scheduler.Skips
import Nutsh.Scheduler.Idle
import Nutsh.Tasks
import Nutsh.Tasks.Watches
import Nutsh.Live
import Nutsh.App
import Nutsh.Untouched
import Nutsh.Written
import Nutsh.Refresh
import Nutsh.System
import Nutsh.System.Kept
import Nutsh.System.Sending
import Nutsh.System.Choice
import Nutsh.System.Record
import Nutsh.System.Sites
import Nutsh.System.Prefill
import Nutsh.System.Surfaces
import Nutsh.System.Judged
import Nutsh.System.CanI
import Nutsh.System.Outcomes
import Nutsh.Screen
import Nutsh.Screen.Accounts
import Nutsh.Screen.Polls
import Nutsh.Screen.Changes
import Nutsh.Screen.Boxes
import Nutsh.Screen.Keys
import Nutsh.Screen.Steps
import Nutsh.Screen.Origins
import Nutsh.Screen.Faces
import Nutsh.Screen.Modals
import Nutsh.Screen.Owned
import Nutsh.Screen.Schedules
import Nutsh.Screen.Pause
import Nutsh.Cache.Scrub
import Nutsh.Cache
import Nutsh.Cache.Formats
import Nutsh.Cache.RoundTrip
import Nutsh.Cache.Snapshot
import Nutsh.Cache.Cluster
import Nutsh.Cache.Alike
import Nutsh.Cache.Secrecy
import Nutsh.Palette
import Nutsh.Palette.Line
import Nutsh.Palette.Clusters
import Nutsh.Palette.Bytes
import Nutsh.Palette.Rows
import Nutsh.Palette.Choose
import Nutsh.Palette.Typed
import Nutsh.Palette.Arguments
import Nutsh.Select
import Nutsh.Lib.JsonText
import Nutsh.Cell
import Nutsh.Cell.Bidi
import Nutsh.Cell.Status
import Nutsh.Rolling
import Nutsh.Detail
import Nutsh.Detail.Fallback
import Nutsh.Detail.Labels
import Nutsh.Detail.Body
import Nutsh.Lib.Yaml
import Nutsh.Lib.Yaml.Layout
import Nutsh.Lib.Yaml.Lines
import Nutsh.Lib.Yaml.Numbers
import Nutsh.YamlText
import Nutsh.YamlText.Strings
import Nutsh.YamlText.RoundTrip
import Nutsh.Recorder.Mask
import Nutsh.Recorder.Redact
import Nutsh.Recorder.Places
import Nutsh.Recorder.Again
import Nutsh.Recorder.Spelled
import Nutsh.Generator.Parse
import Nutsh.Generator.Overlay
import Nutsh.Generator.Sound
import Nutsh.Lib.Csv
import Nutsh.Export
import Nutsh.Lib.Calendar
import Nutsh.Lib.Digits
import Nutsh.Export.Stamp
import Nutsh.Lib.Shares
import Nutsh.Widths
import Nutsh.Lib.Loop
import Nutsh.Widths.Fit
import Nutsh.Lib.LazyRing
import Nutsh.Prism.Metrics
import Nutsh.Confirm
import Nutsh.Lib.Greedy
import Nutsh.Cache.Evict
import Nutsh.Cache.Slug
import Nutsh.Refresh.Spelling
import Nutsh.System.Tables
import Nutsh.System.Submit
import Nutsh.System.Cursor
import Nutsh.Stats
import Nutsh.Evidence
import Nutsh.Generator.Resolves
import Nutsh.Generator.Copies
import Nutsh.Generator.Conserved
import Nutsh.Generator.Drill
import Nutsh.Generator.Headings
import Nutsh.Lib.Precedence
import Nutsh.Lib.Instants
import Nutsh.Mock.Filter
import Nutsh.Mock.Lists
import Nutsh.Mock.Sent
import Nutsh.Mock.Window
import Nutsh.Lib.Disk
import Nutsh.Atomic
import Nutsh.Atomic.Whole
import Nutsh.Atomic.Tidy
import Nutsh.History
import Nutsh.Generator.Menu
import Nutsh.Sidebar.Reaching
import Nutsh.Guardrails.Granted
import Nutsh.Screen.Mouse
import Nutsh.Lib.Rows
import Nutsh.Mock.Fired
import Nutsh.Mock.Told
