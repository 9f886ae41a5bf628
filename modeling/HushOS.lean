import HushOS.GivenRosters
import HushOS.CoreCanonical
import HushOS.Acceptance.Windows
import HushOS.Acceptance.Pins
import HushOS.Joining.Escalating
import HushOS.Worker.Handing
import HushOS.Drive.TagSaves
import HushOS.Growth.Caps
import HushOS.Affiliates.Ledger
import HushOS.Billing.Forward
import HushOS.Identities.Orders
import HushOS.Worker.Overlaps
import HushOS.Groups.Granted
import HushOS.Contacts.Successions
import HushOS.Content.Stored
import HushOS.Content.Answering
import HushOS.Billing.Endings
import HushOS.Drive.Listings
import HushOS.Drive.BatchPurges
import HushOS.Content.Metadata
import HushOS.Content.Padding
import HushOS.Catalogue.Parents
import HushOS.Catalogue.Recent
import HushOS.Catalogue.WalkHolds
import HushOS.Contacts.Room
import HushOS.Auth.Successions
import HushOS.Auth.Sessions
