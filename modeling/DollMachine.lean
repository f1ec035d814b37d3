import DollMachine.Users.Session
import DollMachine.Users.Lookup
import DollMachine.Users.Records
import DollMachine.Users.SignUp
import DollMachine.Users.Push
import DollMachine.Users.Rows
import DollMachine.Users.Removal
import DollMachine.Users.Masters
import DollMachine.Users.FirstLogin
import DollMachine.Users.Privilege
import DollMachine.Statistics.Machine
import DollMachine.Statistics.Order
import DollMachine.Statistics.Views
import DollMachine.Statistics.Dates
import DollMachine.Statistics.Extrema
import DollMachine.Functions.OnCreateData
import DollMachine.Reload
import DollMachine.Sensor.Keys
import DollMachine.Sensor.Items
import DollMachine.Sensor.Times
import DollMachine.Sensor.Link
import DollMachine.Sensor.Pulse
import DollMachine.Json.Reading
import DollMachine.Uplink
import DollMachine.Network
import DollMachine.Report
