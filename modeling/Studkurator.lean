import Studkurator.Controller.EventDates
import Studkurator.Controller.IncrementalUpdate
import Studkurator.System.EventCycles
import Studkurator.System.EventSaves
import Studkurator.System.FormData
import Studkurator.System.RosterSafety
import Studkurator.System.RosterSerial
import Studkurator.Controller.GroupSearch
import Studkurator.Controller.StudentSaves
import Studkurator.Controller.GroupReload
import Studkurator.Library.Outstanding
import Studkurator.System.EventPictures
import Studkurator.System.AccountDevice
import Studkurator.System.AccountIsolation
import Studkurator.Controller.ContactTVC
import Studkurator.Controller.EventRows
import Studkurator.Controller.PhoneNumbers
import Studkurator.Extensions.UIImage
import Studkurator.Library.Cells
import Studkurator.Library.Reload
import Studkurator.System.EventChanges
import Studkurator.System.EventScreens
import Studkurator.System.RosterAgreement
import Studkurator.System.RosterCapacity
import Studkurator.System.RosterCycles
import Studkurator.System.RosterEdits
import Studkurator.System.EventKnown
import Studkurator.System.RosterKnown
import Studkurator.Controller.Alerts
import Studkurator.Controller.FieldPatterns
import Studkurator.System.AccountFrame
import Studkurator.System.EventAgreement
import Studkurator.System.EventTurns
import Studkurator.System.EventCells
