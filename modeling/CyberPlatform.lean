import CyberPlatform.Common.LList.Refinement
import CyberPlatform.Foundation.StableSort
import CyberPlatform.Common.LList.Sorted
import CyberPlatform.Dispatcher.Context
import CyberPlatform.Dispatcher.Frame
import CyberPlatform.Dispatcher.PktRouter
import CyberPlatform.Common.Json
import CyberPlatform.Common.LList.Store
import CyberPlatform.Dispatcher.AppConf
import CyberPlatform.Dispatcher.Allocator
import CyberPlatform.Dispatcher.Startup
import CyberPlatform.AppManager.AppConf
import CyberPlatform.AppManager.Decoding
import CyberPlatform.Common.LList.Traversal
import CyberPlatform.Dispatcher.Bypass
import CyberPlatform.AppManager.Allocator
import CyberPlatform.Foundation.Journal
import CyberPlatform.Foundation.History
import CyberPlatform.AppManager.Steps
import CyberPlatform.AppManager.Startup
import CyberPlatform.AppManager.Trace
import CyberPlatform.AppManager.Outcomes
import CyberPlatform.AppManager.Protocol
import CyberPlatform.AppManager.Numbers
import CyberPlatform.AppManager.Schema
import CyberPlatform.Common.ConfFile
import CyberPlatform.Dispatcher.Flush
import CyberPlatform.Dispatcher.MainLoop
import CyberPlatform.Common.LList.Headless
import CyberPlatform.Common.LList.Mixed
import CyberPlatform.Common.LList.Detach
import CyberPlatform.Common.LList.Destroy
import CyberPlatform.Common.Log
import CyberPlatform.AppManager.Tables
import CyberPlatform.Foundation.CString
import CyberPlatform.Foundation.Number
import CyberPlatform.Foundation.Fields
import CyberPlatform.Foundation.Ensures
import CyberPlatform.Foundation.SortedChain
import CyberPlatform.Pcd.Rule
import CyberPlatform.Pcd.Parser
import CyberPlatform.Pcd.Grammar
import CyberPlatform.Pcd.Printer
import CyberPlatform.Foundation.Assoc
import CyberPlatform.Pcd.RulesDb
import CyberPlatform.Pcd.Catalog
import CyberPlatform.Pcd.State
import CyberPlatform.Pcd.Condchk
import CyberPlatform.Pcd.Ipc
import CyberPlatform.Pcd.Process
import CyberPlatform.Pcd.Timer
import CyberPlatform.Pcd.Api
import CyberPlatform.Pcd.Main
import CyberPlatform.Pcd.Moves
import CyberPlatform.Pcd.Invariant
import CyberPlatform.Pcd.Lasting
import CyberPlatform.Pcd.Mail
import CyberPlatform.Pcd.Timing
import CyberPlatform.Pcd.Rounds
import CyberPlatform.Pcd.Daemon
import CyberPlatform.Pcd.Order
import CyberPlatform.Pcd.Deadline
import CyberPlatform.Pcd.Supervision
import CyberPlatform.Pcd.Cycles
import CyberPlatform.Pcd.Runs
import CyberPlatform.Pcd.Boot
