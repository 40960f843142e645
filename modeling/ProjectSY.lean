import ProjectSY.Session.Identity
import ProjectSY.Session.Routing
import ProjectSY.Session.Relaunch
import ProjectSY.Store.Complete
import ProjectSY.Store.Interference
import ProjectSY.Store.FailedWrites
import ProjectSY.Lib.Pattern
import ProjectSY.Controllers.TextFields
import ProjectSY.Form.Validators
import ProjectSY.Store.CodeFormat
import ProjectSY.Controllers.Home
import ProjectSY.Store.Background
import ProjectSY.Session.SignOut
import ProjectSY.Form.Acceptance
import ProjectSY.Fleet.Devices
import ProjectSY.Store.Directory
import ProjectSY.Fleet.Service
import ProjectSY.Fleet.Accounts
import ProjectSY.App.Presentation
import ProjectSY.Fleet.Format
import ProjectSY.Fleet.Delivery
import ProjectSY.App.ConnectionScreen
import ProjectSY.App.NoWayBack
import ProjectSY.App.Restored
import ProjectSY.Fleet.Orders
import ProjectSY.Firestore.Client
import ProjectSY.Firestore.Histories
import ProjectSY.Firestore.LocalView
import ProjectSY.Firestore.Reads
import ProjectSY.Firestore.FieldPaths
import ProjectSY.Firestore.UserData
